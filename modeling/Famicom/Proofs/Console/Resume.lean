import Famicom.Console.Saving
import Famicom.Proofs.Cartridge.Acts
import Famicom.Proofs.Console.Computation
import Famicom.Proofs.Sound.Acts

/-!
# What a snapshot brings back

`restore_eq_ok_iff` tells when restoring succeeds and what it leads to: processor, RAM, cartridge
and audio unit come from the snapshot; settings, patches, frame clock and totals stay; a requested
interrupt is dropped.

* `restore_snapshot` — a console goes back to its own snapshot.
* `restored_channels_iff` — which audio units come back from a snapshot as they were.
-/

namespace Famicom.Console

open Sound Run

/-! ## Taking a snapshot -/

/-- The snapshot of a console with the given cartridge and program. -/
def snapshotOf (k : Console) (c : Cartridge) (p : Program) : Snapshot where
  version := Snapshot.currentVersion
  fingerprint := p.fingerprint
  cpu := k.cpu
  ram := k.bus.ram.toArray
  cartridge := c.save
  apu := k.bus.apu

/-- With a cartridge and a program a snapshot is always taken. -/
theorem snapshot_eq_ok {k : Console} {c : Cartridge} {p : Program}
    (hc : k.bus.cartridge = some c) (hp : k.program = some p) :
    k.snapshot = .ok (k.snapshotOf c p) := by
  simp only [snapshot, hc, hp]
  rfl

/-! ## Going back -/

/-- The console after a snapshot was put into it, with `c` as the restored cartridge. -/
def resumed (k : Console) (s : Snapshot) (ram : Vector UInt8 2048) (c : Cartridge) : Console :=
  { k with
    cpu := s.cpu
    bus := { k.bus with ram, apu := adoptApu k.settings s.apu, cartridge := some c }
    nmiRequested := false
    haltLogged := s.cpu.halt.isSome
    log := k.log.push (.restored s.cpu.pc) }

/-- Everything about a snapshot and a console that restoring checks, and the cartridge that it
gives. -/
structure Fits (s : Snapshot) (k : Console) (c : Cartridge) : Prop where
  version : s.version = Snapshot.currentVersion
  program : ∃ p, k.program = some p ∧ s.fingerprint = p.fingerprint
  ram : s.ram.size = 2048
  cartridge : ∃ old, k.bus.cartridge = some old ∧ old.restore s.cartridge = .ok c

/-- Restoring either fails and changes nothing, or the snapshot fits and it does what `resumed`
says. -/
theorem restore_cases (s : Snapshot) (k : Console) :
    (∃ e, (restore s).run k = (.error e, k)) ∨
      ∃ c, ∃ h : Fits s k c, (restore s).run k = (.ok (), k.resumed s ⟨s.ram, h.ram⟩ c) := by
  -- the checks in their order: version, program, fingerprint, memory, cartridge
  rw [restore]
  by_cases hversion : s.version = Snapshot.currentVersion
  case neg =>
    rw [if_pos hversion, bind_run, throw_run]
    exact .inl ⟨_, rfl⟩
  rw [if_neg (not_not_intro hversion)]
  cases hp : k.program with
  | none =>
    simp only [bind_run, get_run, hp, throw_run]
    exact .inl ⟨_, rfl⟩
  | some p =>
    simp only [bind_run, get_run, hp]
    by_cases hfingerprint : s.fingerprint = p.fingerprint
    case neg =>
      rw [if_pos hfingerprint, bind_run, throw_run]
      exact .inl ⟨_, rfl⟩
    rw [if_neg (not_not_intro hfingerprint)]
    by_cases hram : s.ram.size = 2048
    case neg =>
      rw [dif_neg hram, throw_run]
      exact .inl ⟨_, rfl⟩
    rw [dif_pos hram]
    cases hold : k.bus.cartridge with
    | none =>
      simp only [Console.cartridge, bind_run, get_run, hold, throw_run]
      exact .inl ⟨_, rfl⟩
    | some old =>
      simp only [Console.cartridge, bind_run, get_run, hold, pure_run]
      cases hc : old.restore s.cartridge with
      | error e => exact .inl ⟨_, rfl⟩
      | ok c => exact .inr ⟨c, ⟨hversion, ⟨p, hp, hfingerprint⟩, hram, ⟨old, hold, hc⟩⟩, rfl⟩

/-- A snapshot that is taken back fits, and nothing else decides what comes out. -/
theorem restore_inv {s : Snapshot} {k r : Console} (h : (restore s).run k = (.ok (), r)) :
    ∃ c, ∃ hfits : Fits s k c, r = k.resumed s ⟨s.ram, hfits.ram⟩ c := by
  rcases restore_cases s k with ⟨e, herror⟩ | ⟨c, hfits, hok⟩
  · rw [herror] at h
    cases h
  · rw [hok] at h
    cases h
    exact ⟨c, hfits, rfl⟩

/-- A snapshot that fits is taken back. -/
theorem Fits.restore_eq {s : Snapshot} {k : Console} {c : Cartridge} (h : Fits s k c) :
    (restore s).run k = (.ok (), k.resumed s ⟨s.ram, h.ram⟩ c) := by
  obtain ⟨p, hp, hfingerprint⟩ := h.program
  obtain ⟨old, hold, hc⟩ := h.cartridge
  rw [restore, if_neg (not_not_intro h.version)]
  simp only [bind_run, get_run, hp, hfingerprint, ne_eq, not_true_eq_false, if_false,
    dif_pos h.ram, Console.cartridge, hold, pure_run, hc]
  rfl

/-- A console goes back to its own snapshot. -/
theorem fits_snapshotOf {k : Console} {c : Cartridge} {p : Program}
    (hc : k.bus.cartridge = some c) (hp : k.program = some p) : Fits (k.snapshotOf c p) k c where
  version := rfl
  program := ⟨p, hp, rfl⟩
  ram := k.bus.ram.size_toArray
  cartridge := ⟨c, hc, c.restore_save⟩

/-! ## The audio unit -/

/-- The channels come back confined; rate and mixing do not touch them. -/
theorem adoptApu_channels (s : Settings) (a : Apu) :
    (adoptApu s a).channels = a.confine.channels := by
  unfold adoptApu
  exact Apu.channels_withMixing ..

/-- **What a snapshot keeps of the sound.**  Whatever is done to an audio unit from power-on,
confining it at most shortens the present run of the noise timer to its period.  So the channels
come back from a snapshot as they were just if that run was within the period. -/
theorem restored_channels_iff (acts : List Apu.Act) :
    let a := Apu.powerOn.run acts
    a.confine.channels =
        { a.channels with
          noise := { a.noise with
            timer := { a.noise.timer with
              counter := min a.noise.timer.counter a.noise.timer.period } } } ∧
      (a.confine.channels = a.channels ↔ a.noise.timer.counter ≤ a.noise.timer.period) ∧
      ∀ (m : Console) (c : Cartridge) (p : Program),
        m.bus.apu = a → m.bus.cartridge = some c → m.program = some p →
        ∃ s, m.snapshot = .ok s ∧ (∃ r, (restore s).run m = (.ok (), r)) ∧
          ∀ k r, (restore s).run k = (.ok (), r) →
            (r.bus.apu.channels = a.channels ↔
              a.noise.timer.counter ≤ a.noise.timer.period) := by
  intro a
  have hrange : a.channels.InRange := Apu.inRange_run Apu.inRange_powerOn acts
  refine ⟨Apu.confine_channels hrange, Apu.confine_channels_eq_iff hrange, ?_⟩
  intro m c p hapu hc hp
  refine ⟨m.snapshotOf c p, snapshot_eq_ok hc hp, ⟨_, (fits_snapshotOf hc hp).restore_eq⟩, ?_⟩
  intro k r hrestore
  obtain ⟨d, hfits, rfl⟩ := restore_inv hrestore
  have hchannels : (adoptApu k.settings m.bus.apu).channels = a.confine.channels :=
    hapu ▸ adoptApu_channels k.settings m.bus.apu
  change (adoptApu k.settings m.bus.apu).channels = a.channels ↔ _
  rw [hchannels]
  exact Apu.confine_channels_eq_iff hrange

/-- The noise timer is slowed down, run for one sample and sped up again. -/
def slowedNoise : List Apu.Act := [.write 0x400E 0x0F, .samples 1, .write 0x400E 0x00]

/-- A long noise period has been loaded, and then a short one was set. -/
theorem slowedNoise_channels :
    (Apu.powerOn.run slowedNoise).confine.channels ≠ (Apu.powerOn.run slowedNoise).channels := by
  have hcounter : (Apu.powerOn.run slowedNoise).confine.noise.timer.counter ≠
      (Apu.powerOn.run slowedNoise).noise.timer.counter := by decide +kernel
  exact fun heq => hcounter (congrArg (·.noise.timer.counter) heq)

/-- A console whose noise timer was sped up does not get it back as it was. -/
theorem restored_channels_slowedNoise :
    let c : Cartridge :=
      ⟨.fixed ⟨.horizontal, 0x8000, false, 0⟩, ⟨#[0xEA], by decide⟩, .zeros 1, true, .zeros 1⟩
    let p : Program := ⟨0, "", none, false⟩
    let m : Console := { powerOn with
      bus := { Bus.powerOn with apu := Apu.powerOn.run slowedNoise, cartridge := some c }
      program := some p }
    m.bus.apu = Apu.powerOn.run slowedNoise ∧ m.bus.cartridge = some c ∧ m.program = some p ∧
      ∃ s r, m.snapshot = .ok s ∧ (restore s).run m = (.ok (), r) ∧
        r.bus.apu.channels ≠ m.bus.apu.channels := by
  intro c p m
  obtain ⟨-, -, hconsole⟩ := restored_channels_iff slowedNoise
  obtain ⟨s, hs, ⟨r, hr⟩, hiff⟩ := hconsole m c p rfl rfl rfl
  refine ⟨rfl, rfl, rfl, s, r, hs, hr, fun heq => ?_⟩
  have hle := (hiff m r hr).mp heq
  exact absurd hle (by decide +kernel)

end Famicom.Console
