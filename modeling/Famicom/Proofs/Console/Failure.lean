import Famicom.Console.Load
import Famicom.Proofs.Console.Resume

/-!
# Failed operations change nothing

Six operations of the console can be refused: loading an image, choosing settings, putting battery
RAM back, applying a patch, taking one back, and going back to a snapshot.  Each makes all its
checks before it changes anything, so a refusal leaves the console as it was.

* `AllOrNothing` — the property, with a rule for every construct that the operations are made of.
* `restore_fails_iff` — a snapshot is refused just if something about it does not fit.
* `failed_attempt_unchanged` — the property of all six.
-/

namespace Famicom

/-! ## What fits a cartridge -/

/-- Contents of the right size replace others. -/
theorem Arena.exists_replace?_iff (a : Arena) (bytes : Array UInt8) :
    (∃ b, a.replace? bytes = some b) ↔ bytes.size = a.size := by
  unfold replace?
  constructor
  · rintro ⟨b, hb⟩
    split at hb
    · assumption
    · cases hb
  · intro hsize
    exact ⟨_, dif_pos hsize⟩

/-- Registers can be put into a board of their kind, and into no other. -/
theorem Board.exists_install?_iff (board : Board) (r : Registers) :
    (∃ b, board.install? r = some b) ↔ r.kind = board.registers.kind := by
  cases board <;> cases r <;> simp [install?, registers, Registers.kind]

/-- A saved state can be restored just if its registers are of the board's kind and its memories
have the cartridge's sizes. -/
theorem Cartridge.exists_restore_iff (c : Cartridge) (s : State) :
    (∃ d, c.restore s = .ok d) ↔
      s.registers.kind = c.board.registers.kind ∧ s.workRam.size = c.workRam.size ∧
        (c.chrIsRam → s.chrRam.size = c.chr.size) := by
  constructor
  · rintro ⟨d, hd⟩
    obtain ⟨board, workRam, chr, hboard, hwork, hchr, -⟩ := restore_eq_ok_iff.mp hd
    refine ⟨(c.board.exists_install?_iff _).mp ⟨board, hboard⟩,
      (c.workRam.exists_replace?_iff _).mp ⟨workRam, hwork⟩, fun hram => ?_⟩
    rw [if_pos hram] at hchr
    exact (c.chr.exists_replace?_iff _).mp ⟨chr, hchr⟩
  · rintro ⟨hkind, hwork, hchr⟩
    obtain ⟨board, hboard⟩ := (c.board.exists_install?_iff _).mpr hkind
    obtain ⟨workRam, hworkRam⟩ := (c.workRam.exists_replace?_iff _).mpr hwork
    obtain ⟨chr, hchrRam⟩ :
        ∃ chr, (if c.chrIsRam then c.chr.replace? s.chrRam else some c.chr) = some chr := by
      by_cases hram : c.chrIsRam
      · rw [if_pos hram]
        exact (c.chr.exists_replace?_iff _).mpr (hchr hram)
      · exact ⟨c.chr, if_neg hram⟩
    exact ⟨_, Cartridge.restore_eq_ok_iff.mpr
      ⟨board, workRam, chr, hboard, hworkRam, hchrRam, rfl⟩⟩

namespace Console

open Run

variable {α β : Type}

/-! ## Computations that check first -/

/-- The computation only looks at the console. -/
def Observes (x : Run α) : Prop := ∀ c, (x.run c).2 = c

/-- The computation never ends in an error. -/
def Succeeds (x : Run α) : Prop := ∀ c, ∃ a d, x.run c = (.ok a, d)

/-- When the computation ends in an error, it has changed nothing. -/
def AllOrNothing (x : Run α) : Prop := ∀ c e d, x.run c = (.error e, d) → d = c

theorem observes_get : Observes get := fun _ => rfl

/-- Asking for the cartridge fails without one, but changes nothing either way. -/
theorem observes_cartridge : Observes cartridge := by
  intro c
  rw [cartridge, bind_run, get_run]
  dsimp only
  split <;> rfl

theorem succeeds_lift (x : StateM Console α) : Succeeds (liftM x : Run α) :=
  fun c => ⟨_, _, lift_run x c⟩

/-- What follows what succeeds must succeed itself. -/
theorem Succeeds.bind {x : Run α} {f : α → Run β} (hx : Succeeds x) (hf : ∀ a, Succeeds (f a)) :
    Succeeds (x >>= f) := by
  intro c
  obtain ⟨a, d, hrun⟩ := hx c
  rw [bind_run, hrun]
  exact hf a d

namespace AllOrNothing

theorem throw (e : Error) : AllOrNothing (MonadExcept.throw e : Run α) := by
  intro c e' d h
  rw [throw_run] at h
  exact (congrArg Prod.snd h).symm

/-- What would come after an error does not matter. -/
theorem throw_bind (e : Error) (f : α → Run β) :
    AllOrNothing ((MonadExcept.throw e : Run α) >>= f) := by
  intro c e' d h
  rw [bind_run, throw_run] at h
  exact (congrArg Prod.snd h).symm

/-- What cannot fail need not be undone. -/
theorem of_succeeds {x : Run α} (hx : Succeeds x) : AllOrNothing x := by
  intro c e d h
  obtain ⟨a, d', hrun⟩ := hx c
  rw [hrun] at h
  cases h

theorem lift (x : StateM Console α) : AllOrNothing (liftM x : Run α) :=
  of_succeeds (succeeds_lift x)

/-- Looking first keeps the rest all or nothing. -/
theorem observe {x : Run α} {f : α → Run β} (hx : Observes x) (hf : ∀ a, AllOrNothing (f a)) :
    AllOrNothing (x >>= f) := by
  intro c e d h
  have hsame : (x.run c).2 = c := hx c
  rw [bind_run] at h
  rcases hrun : x.run c with ⟨a | a, c'⟩ <;> rw [hrun] at h hsame <;> dsimp only at h hsame
  · exact (congrArg Prod.snd h).symm.trans hsame
  · exact (hf a c' e d h).trans hsame

/-- What comes after the checks must not fail. -/
theorem bind {x : Run α} {f : α → Run β} (hx : AllOrNothing x) (hf : ∀ a, Succeeds (f a)) :
    AllOrNothing (x >>= f) := by
  intro c e d h
  rw [bind_run] at h
  rcases hrun : x.run c with ⟨a | a, c'⟩ <;> rw [hrun] at h
  · cases h
    exact hx c _ _ hrun
  · obtain ⟨b, d', hb⟩ := hf a c'
    dsimp only at h
    rw [hb] at h
    cases h

theorem ite {p : Prop} [Decidable p] {x y : Run α} (hx : AllOrNothing x) (hy : AllOrNothing y) :
    AllOrNothing (if p then x else y) := by
  split
  · exact hx
  · exact hy

end AllOrNothing

/-! ## The operations -/

/-- Loading fails on the image alone. -/
theorem allOrNothing_load (i : Image) : AllOrNothing (load i) := by
  unfold load
  split
  · exact .throw _
  · refine .of_succeeds ((succeeds_lift _).bind fun _ => (succeeds_lift _).bind fun _ =>
      (succeeds_lift _).bind fun _ => (succeeds_lift _).bind fun _ => ?_)
    split
    · exact succeeds_lift _
    · exact fun c => ⟨_, _, pure_run _ c⟩

/-- Settings are checked before they are used. -/
theorem allOrNothing_applySettings (s : Settings) : AllOrNothing (applySettings s) := by
  unfold applySettings
  split
  · exact .throw _
  · exact .bind (.lift _) fun _ => succeeds_lift _

/-- So is the size of battery RAM. -/
theorem allOrNothing_putBatteryRam (data : Array UInt8) : AllOrNothing (putBatteryRam data) := by
  unfold putBatteryRam
  refine .observe observes_get fun c => .ite (.throw_bind _ _) ?_
  refine .observe observes_cartridge fun cartridge => ?_
  split
  · exact .throw _
  · exact .bind (.lift _) fun _ => succeeds_lift _

/-- A patch is decoded and looked up before a byte is written. -/
theorem allOrNothing_addPatch (text : String) : AllOrNothing (addPatch text) := by
  unfold addPatch
  split
  · exact .throw _
  · refine .observe observes_cartridge fun cartridge => .observe observes_get fun c => ?_
    split
    · exact .throw _
    · exact .bind (.lift _) fun _ => (succeeds_lift _).bind fun _ c => ⟨_, _, pure_run _ c⟩

/-- A patch that is not there is not taken back. -/
theorem allOrNothing_removePatch (id : Patch.Id) : AllOrNothing (removePatch id) := by
  unfold removePatch
  refine .observe observes_cartridge fun cartridge => .observe observes_get fun c => ?_
  split
  · exact .throw _
  · exact .bind (.lift _) fun _ => succeeds_lift _

/-- A snapshot is compared, and its cartridge state put in, before anything else. -/
theorem allOrNothing_restore (s : Snapshot) : AllOrNothing (restore s) := by
  intro c e d h
  rcases restore_cases s c with ⟨e', hrun⟩ | ⟨cartridge, hfits, hrun⟩
  · rw [hrun] at h
    exact (congrArg Prod.snd h).symm
  · rw [hrun] at h
    cases h

/-! ## Snapshots that do not fit -/

/-- Something about a snapshot does not fit a program and its cartridge. -/
inductive Misfit (s : Snapshot) (p : Program) (c : Cartridge) : Prop
  | version (h : s.version ≠ Snapshot.currentVersion)
  | fingerprint (h : s.fingerprint ≠ p.fingerprint)
  | ram (h : s.ram.size ≠ 2048)
  | registers (h : s.cartridge.registers.kind ≠ c.board.registers.kind)
  | workRam (h : s.cartridge.workRam.size ≠ c.workRam.size)
  | chrRam (hram : c.chrIsRam) (h : s.cartridge.chrRam.size ≠ c.chr.size)

/-- What fits is not a misfit. -/
theorem Fits.not_misfit {s : Snapshot} {k : Console} {p : Program} {c d : Cartridge}
    (h : Fits s k d) (hp : k.program = some p) (hc : k.bus.cartridge = some c) :
    ¬Misfit s p c := by
  obtain ⟨q, hq, hfingerprint⟩ := h.program
  obtain ⟨old, hold, hrestore⟩ := h.cartridge
  cases Option.some.inj (hp.symm.trans hq)
  cases Option.some.inj (hc.symm.trans hold)
  obtain ⟨hkind, hwork, hchr⟩ := (c.exists_restore_iff s.cartridge).mp ⟨d, hrestore⟩
  rintro (hne | hne | hne | hne | hne | ⟨hram, hne⟩)
  · exact hne h.version
  · exact hne hfingerprint
  · exact hne h.ram
  · exact hne hkind
  · exact hne hwork
  · exact hne (hchr hram)

/-- What is no misfit fits. -/
theorem fits_of_not_misfit {s : Snapshot} {k : Console} {p : Program} {c : Cartridge}
    (hp : k.program = some p) (hc : k.bus.cartridge = some c) (h : ¬Misfit s p c) :
    ∃ d, Fits s k d := by
  have hversion := Classical.not_not.mp fun hne => h (.version hne)
  have hfingerprint := Classical.not_not.mp fun hne => h (.fingerprint hne)
  have hram := Classical.not_not.mp fun hne => h (.ram hne)
  obtain ⟨d, hd⟩ := (c.exists_restore_iff s.cartridge).mpr
    ⟨Classical.not_not.mp fun hne => h (.registers hne),
      Classical.not_not.mp fun hne => h (.workRam hne),
      fun hchr => Classical.not_not.mp fun hne => h (.chrRam hchr hne)⟩
  exact ⟨d, hversion, ⟨p, hp, hfingerprint⟩, hram, ⟨c, hc, hd⟩⟩

/-- A snapshot is refused just if something about it does not fit. -/
theorem restore_fails_iff {s : Snapshot} {k : Console} {p : Program} {c : Cartridge}
    (hp : k.program = some p) (hc : k.bus.cartridge = some c) :
    (∃ e, (restore s).run k = (.error e, k)) ↔ Misfit s p c := by
  constructor
  · rintro ⟨e, he⟩
    refine Classical.byContradiction fun hfit => ?_
    obtain ⟨d, hfits⟩ := fits_of_not_misfit hp hc hfit
    rw [hfits.restore_eq] at he
    cases he
  · intro hmisfit
    rcases restore_cases s k with hfails | ⟨d, hfits, -⟩
    · exact hfails
    · exact absurd hmisfit (hfits.not_misfit hp hc)

/-! ## All operations that can be refused -/

/-- An operation of the console that can be refused. -/
inductive Attempt
  | load (i : Image)
  | applySettings (s : Settings)
  | putBatteryRam (data : Array UInt8)
  | addPatch (text : String)
  | removePatch (id : Patch.Id)
  | restore (s : Snapshot)

/-- Make an attempt. -/
def Attempt.run : Attempt → Run Unit
  | .load i => Console.load i
  | .applySettings s => Console.applySettings s
  | .putBatteryRam data => Console.putBatteryRam data
  | .addPatch text => do let _ ← Console.addPatch text
  | .removePatch id => Console.removePatch id
  | .restore s => Console.restore s

theorem allOrNothing_attempt (a : Attempt) : AllOrNothing a.run := by
  cases a with
  | load i => exact allOrNothing_load i
  | applySettings s => exact allOrNothing_applySettings s
  | putBatteryRam data => exact allOrNothing_putBatteryRam data
  | addPatch text =>
    exact .bind (allOrNothing_addPatch text) fun _ c => ⟨_, _, pure_run _ c⟩
  | removePatch id => exact allOrNothing_removePatch id
  | restore s => exact allOrNothing_restore s

/-- **Failure.**  An attempt that ends in an error leaves the console as it was, in every part.
Snapshots are refused just if they do not fit. -/
theorem failed_attempt_unchanged (k : Console) (a : Attempt) :
    (∀ e d, a.run.run k = (.error e, d) → d = k) ∧
      ∀ s p c, a = .restore s → k.program = some p → k.bus.cartridge = some c →
        ((∃ e, a.run.run k = (.error e, k)) ↔ Misfit s p c) := by
  refine ⟨fun e d => allOrNothing_attempt a k e d, ?_⟩
  rintro s p c rfl hp hc
  exact restore_fails_iff hp hc

/-- A snapshot without the cartridge's pattern RAM is refused: nothing of it arrives, although its
processor, its RAM and its registers would fit. -/
theorem failed_attempt_unchanged_shortChr :
    let c : Cartridge :=
      ⟨.fixed ⟨.horizontal, 0x8000, false, 0⟩, ⟨#[0xEA], by decide⟩, .zeros 1, true, .zeros 1⟩
    let p : Program := ⟨0, "", none, false⟩
    let k : Console :=
      { powerOn with bus := { Bus.powerOn with cartridge := some c }, program := some p }
    let s : Snapshot :=
      { k.snapshotOf c p with
        cpu := { k.cpu with a := 7 }
        cartridge := { c.save with chrRam := #[] } }
    k.program = some p ∧ k.bus.cartridge = some c ∧
      ∃ e d, (Attempt.restore s).run.run k = (.error e, d) ∧ d = k ∧ d.cpu.a = 0 := by
  intro c p k s
  obtain ⟨hsame, hfails⟩ := failed_attempt_unchanged k (.restore s)
  -- of the six checks only the last one fails
  have hsizes : s.cartridge.chrRam.size ≠ c.chr.size := by decide
  obtain ⟨e, he⟩ := (hfails s p c rfl rfl rfl).mpr (.chrRam rfl hsizes)
  exact ⟨rfl, rfl, e, k, he, hsame e k he, rfl⟩

end Console

end Famicom
