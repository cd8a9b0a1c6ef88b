import Famicom.Console.Load
import Famicom.Proofs.Console.Resume
import Famicom.Proofs.Console.Routines

/-!
# What can be done to a console

`Console.Act` lists everything that a host can do to a console, directly or through its bus.  What
it does to the bus comes down to a few things: RAM, counters and audio unit change, and the
cartridge is played, patched and restored.  `Bus.Enduring` says of a property that it survives
these, and then every act keeps it that leaves the cartridge in.

* `Bears.acted` — the acts that leave the cartridge in.
* `load_cases` — loading an image.
* `Sound.acted`, `Sound.of_reachable` — whatever is done, the frame sequencer stays in range, and a
  console that knows its program has a cartridge.
-/

namespace Famicom

open Sound

/-! ## Keeping a property of the bus -/

/-- A property of buses that running a program keeps. -/
structure Bus.Closed (Q : Bus → Prop) : Prop where
  fetch : ∀ b addr, Q b → Q (AddressSpace.read addr b).2
  store : ∀ b addr value, Q b → Q (AddressSpace.write addr value b)
  tick : ∀ b cycles, Q b → Q (b.tick cycles)
  clockScanline : ∀ b, Q b → Q b.clockScanline
  stepSequencer : ∀ b, Q b → Q { b with apu := b.apu.stepSequencer }

/-- A property that running a program keeps, as a relation that it cannot break. -/
theorem Bus.Closed.congruence {Q : Bus → Prop} (hQ : Bus.Closed Q) :
    Bus.Congruence (Kept Q) := by
  -- a relation of equals: the first half is congruence, the second that the property is kept
  constructor
  case toCongruence =>
    constructor
    · rintro b e addr ⟨rfl, h⟩
      rfl
    · rintro b e addr ⟨rfl, h⟩
      exact ⟨rfl, hQ.fetch b addr h⟩
    · rintro b e addr value ⟨rfl, h⟩
      exact ⟨rfl, hQ.store b addr value h⟩
  · rintro b e ⟨rfl, h⟩
    rfl
  · rintro b e ⟨rfl, h⟩
    rfl
  · rintro b e cycles ⟨rfl, h⟩
    exact ⟨rfl, hQ.tick b cycles h⟩
  · rintro b e ⟨rfl, h⟩
    exact ⟨rfl, hQ.clockScanline b h⟩
  · rintro b e ⟨rfl, h⟩
    exact ⟨rfl, hQ.stepSequencer b h⟩

/-- What alike consoles go through alike cannot break a property that running a program keeps. -/
theorem Respects.keeps_bus {Q : Bus → Prop} {p : Option Program} {s : Settings} {α : Type}
    {x : StateM Console α} (hx : Respects (Console.Alike (Kept Q) Eq p s) x) {c : Console}
    (hprogram : c.program = p) (hsettings : c.settings = s) (hbus : Q c.bus) :
    (x c).2.program = p ∧ (x c).2.settings = s ∧ Q (x c).2.bus := by
  have halike : Console.Alike (Kept Q) Eq p s c c :=
    ⟨rfl, ⟨rfl, hbus⟩, ⟨hprogram, hprogram⟩, ⟨hsettings, hsettings⟩, rfl, rfl⟩
  obtain ⟨-, hafter⟩ := hx c c halike
  exact ⟨hafter.program.1, hafter.settings.1, hafter.bus.2⟩

/-- A property of buses is kept by running a program if it survives what that does to the parts of
a bus. -/
theorem Bus.Closed.of_parts {Q : Bus → Prop}
    (hcounters : ∀ b counters, Q b → Q { b with counters })
    (hram : ∀ b ram, Q b → Q { b with ram })
    (hapu : ∀ b a, Q b → Q { b with apu := b.apu.acted a })
    (hcartridge : ∀ b a, Q b → Q { b with cartridge := b.cartridge.map (Cartridge.acted · a) }) :
    Closed Q := by
  have hfetch (addr : UInt16) (b : Bus) (h : Q b) : Q (b.fetch addr).2 := by
    unfold Bus.fetch
    split
    · exact h
    · exact h
    · split
      · exact hapu b .readStatus h
      · exact h
    · split
      · exact h
      · exact h
  have hstore (addr : UInt16) (value : UInt8) (b : Bus) (h : Q b) : Q (b.store addr value) := by
    unfold Bus.store
    split
    · exact hram b _ h
    · exact h
    · exact hapu b (.write addr value) h
    · exact hcartridge b (.write addr value) h
  -- a read and a write are counted first, and the count is a part like the others
  exact {
    fetch := fun b addr h => hfetch addr (b.count addr Tally.read) (hcounters b _ h)
    store := fun b addr value h => hstore addr value (b.count addr Tally.write) (hcounters b _ h)
    tick := fun b cycles h => hcartridge b (.ticks cycles) h
    clockScanline := fun b h => hcartridge b .clockScanline h
    stepSequencer := fun b h => hapu b .stepSequencer h }

/-- A property of buses that lasts, whatever becomes of RAM, counters and audio unit, and as long as
the cartridge is only played, patched and restored. -/
structure Bus.Enduring (Q : Bus → Prop) : Prop where
  counters : ∀ b counters, Q b → Q { b with counters }
  ram : ∀ b ram, Q b → Q { b with ram }
  apu : ∀ b a, Q b → Q { b with apu := b.apu.acted a }
  adoptApu : ∀ b s a, Q b → Q { b with apu := Console.adoptApu s a }
  cartridge : ∀ b c d, b.cartridge = some c → c.Reworked d → Q b → Q (b.attach d)

namespace Bus.Enduring

variable {Q : Bus → Prop} (hQ : Enduring Q)

include hQ

/-- Work on the cartridge is work that the property lasts through. -/
theorem mapCartridge {b : Bus} (h : Q b) {f : Cartridge → Cartridge}
    (hf : ∀ c : Cartridge, c.Reworked (f c)) : Q { b with cartridge := b.cartridge.map f } := by
  cases hc : b.cartridge with
  | none =>
    have hsame : { b with cartridge := none } = b := by rw [← hc]
    exact hsame ▸ h
  | some c => exact hQ.cartridge b c (f c) hc (hf c) h

/-- What endures is kept by running a program. -/
theorem closed : Closed Q :=
  .of_parts hQ.counters hQ.ram hQ.apu fun _ a h =>
    hQ.mapCartridge h fun c => (c.kin_acted a).reworked

theorem chrRead {b : Bus} (h : Q b) (addr : UInt16) : Q (b.chrRead addr).2 := by
  let counted := { b with counters := { b.counters with pattern := b.counters.pattern.read } }
  have hcounted : Q counted := hQ.counters b _ h
  unfold Bus.chrRead
  dsimp only
  split
  · next c hc =>
    exact hQ.cartridge counted c _ hc (c.kin_acted (.observe _)).reworked hcounted
  · exact hcounted

theorem chrWrite {b : Bus} (h : Q b) (addr : UInt16) (value : UInt8) :
    Q (b.chrWrite addr value) :=
  hQ.mapCartridge (hQ.counters b _ h) fun c => (c.kin_acted (.chrWrite _ value)).reworked

/-- A track starts on memory that is cleared. -/
theorem wiped {b : Bus} (h : Q b) : Q b.wiped := by
  have hcleared (c : Cartridge) : c.Reworked { c with workRam := c.workRam.clear } :=
    ⟨fun _ => rfl, rfl, rfl, (Arena.size_clear _).symm, rfl, fun _ => rfl⟩
  let blank := { b with ram := zeroRam, apu := b.apu.reset }
  have hblank : Q blank := hQ.apu _ .reset (hQ.ram b zeroRam h)
  exact hQ.mapCartridge hblank hcleared

end Bus.Enduring

/-! ## Patches rework a cartridge -/

namespace Patch.Ledger

/-- A patched byte is still of the same image. -/
theorem reworked_putByte (c : Cartridge) (offset : Nat) (value : UInt8) :
    c.Reworked (putByte c offset value) := by
  unfold putByte
  split
  · exact c.reworked_prg _
  · exact .refl c

/-- A patch is applied by putting one byte. -/
theorem reworked_insert {l l' : Ledger} {c d : Cartridge} {code : Code} {id : Id}
    (h : l.insert c code = .ok (id, l', d)) : c.Reworked d := by
  unfold insert at h
  split at h
  case h_1 => cases h
  dsimp only at h
  split at h
  · cases h
    exact reworked_putByte ..
  · cases h

/-- A patch is removed by putting back what is next in line for its byte. -/
theorem reworked_erase {l l' : Ledger} {c d : Cartridge} {code : Code} {id : Id}
    (h : l.erase c id = .ok (code, l', d)) : c.Reworked d := by
  unfold erase at h
  dsimp only at h
  split at h
  case h_1 => cases h
  split at h
  · cases h
    exact .refl c
  · cases h
    exact reworked_putByte ..

/-- Removing all patches puts bytes back one after the other. -/
theorem reworked_clear (l : Ledger) (c : Cartridge) : c.Reworked (l.clear c).2.2 := by
  change c.Reworked (l.applied.foldr (fun p c => putByte c p.offset p.replaced) c)
  induction l.applied with
  | nil => exact .refl c
  | cons p rest ih => exact ih.trans (reworked_putByte ..)

end Patch.Ledger

/-- What is known about a program made from an image. -/
def Program.ofImage (i : Image) : Program := ⟨i.mapper, i.fingerprint, i.sound, i.battery⟩

namespace Console

/-! ## Consoles that bear a property -/

/-- The console has a given program, and its bus has a property. -/
structure Bears (p : Option Program) (Q : Bus → Prop) (c : Console) : Prop where
  program : c.program = p
  bus : Q c.bus

section

variable {p : Option Program} {Q : Bus → Prop}

/-- What alike consoles go through alike cannot break a property that running a program keeps. -/
theorem keeps_of_respects {α : Type} {x : StateM Console α}
    (hx : ∀ s, Respects (Alike (Kept Q) Eq p s) x) : Respects (Kept (Bears p Q)) x := by
  refine respects_kept_iff.mpr fun c h => ?_
  obtain ⟨hprogram, -, hbus⟩ := (hx c.settings).keeps_bus h.program rfl h.bus
  exact ⟨hprogram, hbus⟩

theorem keeps_report (e : Event) : Respects (Kept (Bears p Q)) (report e) :=
  .update_kept fun _ h => ⟨h.program, h.bus⟩

/-- Where the bus is all that is touched, it is enough to look at the bus. -/
theorem keeps_onBus {f : Bus → Bus} (hf : ∀ b, Q b → Q (f b)) :
    Respects (Kept (Bears p Q)) (onBus f) := .update_kept fun _ h => ⟨h.program, hf _ h.bus⟩

/-- The processor reaches the bus by reads and writes only. -/
theorem keeps_exec {α : Type} {act : Exec Bus α}
    (hact : Respects (Exec.Beside (Kept Q)) act) :
    Respects (Kept (Bears p Q)) (exec act : StateM Console α) :=
  keeps_of_respects fun _ => respects_exec hact

/-- An operation that takes the cartridge out may rely on its being the one in the console. -/
theorem keeps_cartridge {α : Type} {f : Cartridge → Run α}
    (hf : ∀ cartridge c, Bears p Q c → c.bus.cartridge = some cartridge →
      Bears p Q ((f cartridge).run c).2) :
    Respects (Kept (Bears p Q)) (Console.cartridge >>= f).run := by
  refine respects_kept_iff.mpr fun c h => ?_
  simp only [Console.cartridge, Run.bind_run, Run.get_run]
  cases hc : c.bus.cartridge with
  | none => exact h
  | some cartridge => exact hf cartridge c h hc

variable (hQ : Bus.Enduring Q)

include hQ

/-- Reworking the cartridge keeps the property, whatever else becomes of the patches. -/
theorem Bears.attach {c : Console} (h : Bears p Q c) {cartridge d : Cartridge}
    (hc : c.bus.cartridge = some cartridge) (hd : cartridge.Reworked d) (l : Patch.Ledger) :
    Bears p Q { c with patches := l, bus := c.bus.attach d } :=
  ⟨h.program, hQ.cartridge c.bus cartridge d hc hd h.bus⟩

/-! ## The operations -/

theorem keeps_step : Respects (Kept (Bears p Q)) step.run :=
  keeps_of_respects fun _ => respects_step hQ.closed.congruence

theorem keeps_runFrame : Respects (Kept (Bears p Q)) runFrame.run :=
  keeps_of_respects fun _ => respects_runFrame hQ.closed.congruence

theorem keeps_execReset : Respects (Kept (Bears p Q)) (exec Exec.reset : StateM Console Unit) :=
  keeps_exec (Exec.respects_reset hQ.closed.congruence.1)

/-- A reset silences the audio unit and clears the counts of the bus. -/
theorem keeps_reset : Respects (Kept (Bears p Q)) reset := by
  unfold reset
  refine .observe_kept fun c => .ite ?_ (.pure _)
  refine .bind (keeps_onBus ?_) fun _ => .bind (keeps_execReset hQ) fun _ =>
    .bind (.update_kept fun _ h => ⟨h.program, h.bus⟩) fun _ => .observe_kept fun d =>
      keeps_report _
  exact fun b h => hQ.counters _ _ (hQ.apu b .reset h)

/-- Settings reach the audio unit by an act of its own. -/
theorem keeps_applySettings (s : Settings) :
    Respects (Kept (Bears p Q)) (applySettings s).run := by
  unfold applySettings
  split
  · exact .run_throw _
  · refine .run_bind (.run_lift (keeps_onBus ?_)) fun _ =>
      .run_lift (.update_kept fun _ h => ⟨h.program, h.bus⟩)
    exact fun b h => hQ.apu _ (.withMixing s.mixing) (hQ.apu b (.withSampleRate s.sampleRate) h)

/-- Loading a battery file is work on the cartridge, if it fits at all. -/
theorem keeps_putBatteryRam (data : Array UInt8) :
    Respects (Kept (Bears p Q)) (putBatteryRam data).run := by
  unfold putBatteryRam
  refine .run_observe_kept fun _ => .run_ite (.run_throw_bind _ _) (keeps_cartridge ?_)
  intro cartridge c h hc
  cases hreplace : cartridge.workRam.replace? data with
  | none => exact h
  | some workRam =>
    have hkin : cartridge.Kin { cartridge with workRam } :=
      ⟨fun _ => rfl, rfl, rfl, (Arena.size_replace? hreplace).symm, rfl, fun _ => rfl⟩
    exact (keeps_report (.batteryLoaded data.size)).keeps (h.attach hQ hc hkin.reworked c.patches)

/-- A code is decoded first; then it works on the cartridge. -/
theorem keeps_addPatch (text : String) : Respects (Kept (Bears p Q)) (addPatch text).run := by
  unfold addPatch
  split
  · exact .run_throw _
  next code _ =>
  refine keeps_cartridge fun cartridge c h hc => ?_
  simp only [Run.bind_run, Run.get_run]
  cases hinsert : c.patches.insert cartridge code with
  | error e => exact h
  | ok patched =>
    obtain ⟨id, patches, d⟩ := patched
    exact (keeps_report (.patched code)).keeps
      (h.attach hQ hc (Patch.Ledger.reworked_insert hinsert) patches)

theorem keeps_removePatch (id : Patch.Id) :
    Respects (Kept (Bears p Q)) (removePatch id).run := by
  unfold removePatch
  refine keeps_cartridge fun cartridge c h hc => ?_
  simp only [Run.bind_run, Run.get_run]
  cases herase : c.patches.erase cartridge id with
  | error e => exact h
  | ok unpatched =>
    obtain ⟨code, patches, d⟩ := unpatched
    exact (keeps_report (.unpatched code)).keeps
      (h.attach hQ hc (Patch.Ledger.reworked_erase herase) patches)

/-- Without a cartridge there is nothing to put back. -/
theorem keeps_removePatches : Respects (Kept (Bears p Q)) removePatches := by
  refine respects_kept_iff.mpr fun c h => ?_
  unfold removePatches
  simp only [bind, StateT.bind, get, getThe, MonadStateOf.get, StateT.get, pure]
  cases hc : c.bus.cartridge with
  | none => exact h
  | some cartridge =>
  have hreworked := c.patches.reworked_clear cartridge
  have hcleared := h.attach hQ hc hreworked (c.patches.clear cartridge).2.1
  have hrest (n : Nat) : Respects (Kept (Bears p Q)) (do
      if 0 < n then report (.allUnpatched n)
      return n : StateM Console Nat) :=
    .ite (.bind (keeps_report _) fun _ => .pure _) (.pure _)
  exact (hrest (c.patches.clear cartridge).1).keeps hcleared

/-- What a snapshot brings into the bus is of the same image and in range. -/
theorem keeps_restore (s : Snapshot) : Respects (Kept (Bears p Q)) (restore s).run := by
  refine respects_kept_iff.mpr fun c h => ?_
  rcases restore_cases s c with ⟨e, hrun⟩ | ⟨d, hfits, hrun⟩
  · rw [hrun]
    exact h
  · obtain ⟨old, hold, hrestore⟩ := hfits.cartridge
    let adopted := { c.bus with ram := ⟨s.ram, hfits.ram⟩, apu := adoptApu c.settings s.apu }
    have hadopted : Q adopted :=
      hQ.adoptApu _ c.settings s.apu (hQ.ram c.bus ⟨s.ram, hfits.ram⟩ h.bus)
    have hkin := Cartridge.kin_restore hrestore
    rw [hrun]
    exact ⟨h.program, hQ.cartridge adopted old d hold hkin.reworked hadopted⟩

/-! ## Sound programs -/

/-- A console made ready for a track has its program still. -/
theorem Bears.cleared {c : Console} (h : Bears p Q c) (track : UInt8) :
    Bears p Q (c.cleared track) := by
  have hwiped : Bears p Q { c with bus := c.bus.wiped } := ⟨h.program, hQ.wiped h.bus⟩
  have hrestarted := (keeps_execReset hQ).keeps hwiped
  exact ⟨hrestarted.program,
    hQ.apu _ (.write 0x4017 0x40) (hQ.apu _ (.write 0x4015 0x0F) hrestarted.bus)⟩

/-- The routine of a track runs like any other. -/
theorem keeps_startTrack (track : UInt8) :
    Respects (Kept (Bears p Q)) (startTrack track).run :=
  kept_startTrack (fun _ h => h.cleared hQ track) fun sound =>
    keeps_of_respects fun _ => respects_callInit hQ.closed.congruence sound track

theorem keeps_advanceTrack : Respects (Kept (Bears p Q)) advanceTrack.run :=
  keeps_of_respects fun _ => respects_advanceTrack hQ.closed.congruence

end

/-! ## Operations on patches and work RAM -/

/-- A property of consoles that has to do neither with the log nor with patches and cartridge. -/
structure Aloof (P : Console → Prop) : Prop where
  log : ∀ c log, P c → P { c with log }
  attach : ∀ c patches cartridge, P c → P { c with patches, bus := c.bus.attach cartridge }

namespace Aloof

variable {P : Console → Prop} (hP : Aloof P)

include hP

/-- What is aloof from the log outlasts a report. -/
theorem report (e : Event) : Respects (Kept P) (report e) := .update_kept fun _ h => hP.log _ _ h

omit hP in
/-- Asking for the cartridge changes nothing. -/
theorem cartridge : Respects (Kept P) cartridge.run := by
  unfold Console.cartridge
  refine .run_observe_kept fun c => ?_
  split
  · exact .run_pure _
  · exact .run_throw _

/-- A battery file concerns the cartridge and the log. -/
theorem putBatteryRam (data : Array UInt8) : Respects (Kept P) (putBatteryRam data).run := by
  unfold Console.putBatteryRam
  refine .run_observe_kept fun _ => .run_ite (.run_throw_bind _ _)
    (.run_bind cartridge fun c => ?_)
  split
  · exact .run_throw _
  · exact .run_bind (.run_lift (.update_kept fun d h => hP.attach d d.patches _ h)) fun _ =>
      .run_lift (hP.report _)

/-- A patch concerns the cartridge, the list of patches and the log. -/
theorem addPatch (text : String) : Respects (Kept P) (addPatch text).run := by
  unfold Console.addPatch
  split
  · exact .run_throw _
  refine .run_bind cartridge fun c => .run_observe_kept fun d => ?_
  split
  · exact .run_throw _
  · exact .run_bind (.run_lift (.update_kept fun _ h => hP.attach _ _ _ h)) fun _ =>
      .run_bind (.run_lift (hP.report _)) fun _ => .run_pure _

theorem removePatch (id : Patch.Id) : Respects (Kept P) (removePatch id).run := by
  unfold Console.removePatch
  refine .run_bind cartridge fun c => .run_observe_kept fun d => ?_
  split
  · exact .run_throw _
  · exact .run_bind (.run_lift (.update_kept fun _ h => hP.attach _ _ _ h)) fun _ =>
      .run_lift (hP.report _)

theorem removePatches : Respects (Kept P) removePatches := by
  unfold Console.removePatches
  refine .observe_kept fun c => ?_
  split
  · exact .pure _
  · exact .observe_kept fun d => .bind (.update_kept fun _ h => hP.attach _ _ _ h) fun _ =>
      .ite (.bind (hP.report _) fun _ => .pure _) (.pure _)

end Aloof

/-! ## Every act -/

/-- Something that a host does to a console, directly or through its bus.  It may put any cartridge
on the bus, and so change the one there in any way. -/
inductive Act
  | load (i : Image)
  | reset
  | applySettings (s : Settings)
  | step
  | runFrame
  | raiseNmi
  | takeSamples (n : Nat)
  | startTrack (track : UInt8)
  | advanceTrack
  | addPatch (text : String)
  | removePatch (id : Patch.Id)
  | removePatches
  | putBatteryRam (data : Array UInt8)
  | restore (s : Snapshot)
  | busRead (addr : UInt16)
  | busWrite (addr : UInt16) (value : UInt8)
  | chrRead (addr : UInt16)
  | chrWrite (addr : UInt16) (value : UInt8)
  | tick (cycles : Nat)
  | clearRam
  | clearCounters
  | attach (c : Cartridge)
  | operateApu (a : Apu.Act)

/-- The console after an act, whether or not it ended in an error. -/
def acted (c : Console) : Act → Console
  | .load i => ((load i).run c).2
  | .reset => (reset c).2
  | .applySettings s => ((applySettings s).run c).2
  | .step => (step.run c).2
  | .runFrame => (runFrame.run c).2
  | .raiseNmi => (raiseNmi c).2
  | .takeSamples n => (takeSamples n c).2
  | .startTrack track => ((startTrack track).run c).2
  | .advanceTrack => (advanceTrack.run c).2
  | .addPatch text => ((addPatch text).run c).2
  | .removePatch id => ((removePatch id).run c).2
  | .removePatches => (removePatches c).2
  | .putBatteryRam data => ((putBatteryRam data).run c).2
  | .restore s => ((restore s).run c).2
  | .busRead addr => { c with bus := (AddressSpace.read addr c.bus).2 }
  | .busWrite addr value => { c with bus := AddressSpace.write addr value c.bus }
  | .chrRead addr => { c with bus := (c.bus.chrRead addr).2 }
  | .chrWrite addr value => { c with bus := c.bus.chrWrite addr value }
  | .tick cycles => { c with bus := c.bus.tick cycles }
  | .clearRam => { c with bus := c.bus.clearRam }
  | .clearCounters => { c with bus := c.bus.clearCounters }
  | .attach cartridge => { c with bus := c.bus.attach cartridge }
  | .operateApu a => { c with bus := { c.bus with apu := c.bus.apu.acted a } }

/-- A console that some acts lead to from power-on. -/
def Reachable (c : Console) : Prop := ∃ acts : List Act, c = acts.foldl acted powerOn

/-- What holds at power-on and is kept by every act holds of every console that can be reached. -/
theorem Reachable.keeps {P : Console → Prop} (hstart : P powerOn)
    (hacted : ∀ c a, P c → P (c.acted a)) {c : Console} (h : Reachable c) : P c := by
  obtain ⟨acts, rfl⟩ := h
  exact List.foldlRecOn acts acted hstart fun c hc a _ => hacted c a hc

/-- Acts that leave the cartridge in the console. -/
def Act.keepsCartridge : Act → Bool
  | .load _ | .attach _ => false
  | _ => true

/-- An act that leaves the cartridge in keeps whatever lasts. -/
theorem Bears.acted {p : Option Program} {Q : Bus → Prop} (hQ : Bus.Enduring Q) {c : Console}
    (h : Bears p Q c) {a : Act} (ha : a.keepsCartridge) : Bears p Q (c.acted a) := by
  -- one case per act; only the two that put a cartridge in are excluded
  cases a with
  | load | attach => cases ha
  | reset => exact (keeps_reset hQ).keeps h
  | applySettings s => exact (keeps_applySettings hQ s).keeps h
  | step => exact (keeps_step hQ).keeps h
  | runFrame => exact (keeps_runFrame hQ).keeps h
  | raiseNmi => exact ⟨h.program, h.bus⟩
  | takeSamples n => exact ⟨h.program, hQ.apu _ (.samples n) h.bus⟩
  | startTrack track => exact (keeps_startTrack hQ track).keeps h
  | advanceTrack => exact (keeps_advanceTrack hQ).keeps h
  | addPatch text => exact (keeps_addPatch hQ text).keeps h
  | removePatch id => exact (keeps_removePatch hQ id).keeps h
  | removePatches => exact (keeps_removePatches hQ).keeps h
  | putBatteryRam data => exact (keeps_putBatteryRam hQ data).keeps h
  | restore s => exact (keeps_restore hQ s).keeps h
  | busRead addr => exact ⟨h.program, hQ.closed.fetch c.bus addr h.bus⟩
  | busWrite addr value => exact ⟨h.program, hQ.closed.store c.bus addr value h.bus⟩
  | chrRead addr => exact ⟨h.program, hQ.chrRead h.bus addr⟩
  | chrWrite addr value => exact ⟨h.program, hQ.chrWrite h.bus addr value⟩
  | tick cycles => exact ⟨h.program, hQ.closed.tick c.bus cycles h.bus⟩
  | clearRam => exact ⟨h.program, hQ.ram c.bus _ h.bus⟩
  | clearCounters => exact ⟨h.program, hQ.counters c.bus _ h.bus⟩
  | operateApu a => exact ⟨h.program, hQ.apu c.bus a h.bus⟩

/-! ## Loading -/

/-- The console with a cartridge that was made from an image, before its program is started. -/
def inserted (c : Console) (i : Image) (cartridge : Cartridge) : Console :=
  { c with
    bus := (c.bus.attach cartridge).clearRam
    patches := .empty
    program := some (.ofImage i) }

/-- Start the program of an image when its cartridge is in. -/
def startLoaded (i : Image) : Run Unit := do
  reset
  report (.loaded (Program.ofImage i).title)
  if !Board.isKnown i.mapper then report (.unknownMapper i.mapper)

/-- Once the cartridge is made, loading cannot fail. -/
theorem startLoaded_run (i : Image) (c : Console) :
    (startLoaded i).run c = (.ok (), ((startLoaded i).run c).2) := by
  refine Prod.ext ?_ rfl
  change ((if !Board.isKnown i.mapper then _ else _ : Run Unit).run _).1 = _
  split <;> rfl

/-- An image that makes a cartridge is loaded by putting it in and starting. -/
theorem load_run {i : Image} {cartridge : Cartridge} (h : Cartridge.ofImage i = .ok cartridge)
    (c : Console) : (load i).run c = (startLoaded i).run (c.inserted i cartridge) := by
  unfold load
  rw [h]
  rfl

/-- Starting the program keeps what resetting keeps. -/
theorem keeps_startLoaded {p : Option Program} {Q : Bus → Prop}
    (hreset : Respects (Kept (Bears p Q)) reset) (i : Image) :
    Respects (Kept (Bears p Q)) (startLoaded i).run :=
  .run_bind (.run_lift hreset) fun _ => .run_bind (.run_lift (keeps_report _)) fun _ =>
    .run_ite (.run_lift (keeps_report _)) (.run_pure _)

/-- Loading an image either fails and changes nothing, or puts a cartridge made from it on the bus;
what lasts from there on lasts to the end of loading. -/
theorem load_cases (i : Image) (c : Console) :
    (∃ e, Cartridge.ofImage i = .error e ∧
        (load i).run c = (.error (.badImage i.mapper e), c)) ∨
      ∃ cartridge d, Cartridge.ofImage i = .ok cartridge ∧ (load i).run c = (.ok (), d) ∧
        ∀ Q, Bus.Enduring Q → Q (c.bus.attach cartridge).clearRam →
          Bears (some (Program.ofImage i)) Q d := by
  cases himage : Cartridge.ofImage i with
  | error e =>
    refine .inl ⟨e, rfl, ?_⟩
    unfold load
    rw [himage]
    rfl
  | ok cartridge =>
    refine .inr ⟨cartridge, _, rfl, (load_run himage c).trans (startLoaded_run i _), ?_⟩
    intro Q hQ hattached
    exact (keeps_startLoaded (keeps_reset hQ) i).keeps (s := c.inserted i cartridge)
      ⟨rfl, hattached⟩

/-! ## Sound consoles -/

end Console

/-- The audio unit is in range, and there is a cartridge if there has to be. -/
structure Bus.Sound (needed : Bool) (b : Bus) : Prop where
  apu : b.apu.channels.InRange
  present : needed → b.cartridge.isSome

/-- Neither acts of the audio unit nor work on the cartridge make a bus unsound. -/
theorem Bus.sound_enduring (needed : Bool) : Enduring (Sound needed) where
  counters _ _ h := ⟨h.apu, h.present⟩
  ram _ _ h := ⟨h.apu, h.present⟩
  apu _ a h := ⟨Apu.inRange_acted h.apu a, h.present⟩
  adoptApu b s a h := by
    refine ⟨?_, h.present⟩
    change (Console.adoptApu s a).channels.InRange
    rw [Console.adoptApu_channels]
    exact Apu.inRange_confine a
  cartridge _ _ _ _ _ h := ⟨h.apu, fun _ => rfl⟩

namespace Console

/-- The bus is sound, with a cartridge if a program is known. -/
def Sound (c : Console) : Prop := c.bus.Sound c.program.isSome

/-- A new console has no program and needs no cartridge. -/
theorem sound_powerOn : powerOn.Sound := ⟨Apu.inRange_powerOn, fun h => nomatch h⟩

/-- Every act keeps a console sound. -/
theorem Sound.acted {c : Console} (h : c.Sound) (a : Act) : (c.acted a).Sound := by
  have hsound {p : Option Program} {d : Console} (hd : Bears p (Bus.Sound p.isSome) d) :
      d.Sound := by
    change d.bus.Sound d.program.isSome
    rw [hd.program]
    exact hd.bus
  -- a new cartridge is in order by itself
  by_cases ha : a.keepsCartridge
  · exact hsound (Bears.acted (Bus.sound_enduring _) ⟨rfl, h⟩ ha)
  cases a with
  | load i =>
    change ((load i).run c).2.Sound
    rcases load_cases i c with ⟨e, -, hrun⟩ | ⟨cartridge, d, -, hrun, hlasts⟩
    · rw [hrun]
      exact h
    · rw [hrun]
      exact hsound (hlasts _ (Bus.sound_enduring true) ⟨h.apu, fun _ => rfl⟩)
  | attach cartridge => exact ⟨h.apu, fun _ => rfl⟩
  | _ => exact absurd rfl ha

/-- Whatever a host does, a console stays sound. -/
theorem Sound.of_reachable {c : Console} (h : Reachable c) : c.Sound :=
  h.keeps sound_powerOn fun _ a hc => hc.acted a

end Console

end Famicom
