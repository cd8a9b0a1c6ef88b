import Famicom.Proofs.Cartridge.Translation
import Famicom.Proofs.Patch.History
import Mathlib.Data.List.DropRight

/-!
# What one patch does

A patch changes one byte of program ROM.  Most boards show a byte at more than one address, since a
small ROM repeats and two windows may have the same bank; the patch is seen at all of them, and at
no other address.

Its identity is a number that wraps, so an identity comes back after `2 ^ 32` patches and not
before.

* `insert_ok_iff` — when a patch is applied, and what applying it leads to.
* `read_putByte` — the addresses at which another byte of program ROM is seen.
* `Bench.numbered_run` — the identities that a history gives.
* `patched_exactly` — one patch after any history.
-/

namespace Famicom.Patch

/-! ## Program ROM -/

/-- A byte of program ROM is seen at the addresses that show its offset. -/
theorem read_putByte {c : Cartridge} {offset : Nat} (hoffset : offset < c.prg.size) (value : UInt8)
    {addr : UInt16} (haddr : Image.romStart ≤ addr) :
    (Ledger.putByte c offset value).read addr =
      if c.prgOffset? addr = some offset then value else c.read addr := by
  have hput : Ledger.putByte c offset value = { c with prg := c.prg.set offset value } :=
    if_pos hoffset
  have hshown : ({ c with prg := c.prg.set offset value } : Cartridge).prgOffset? addr =
      c.prgOffset? addr := congrArg (c.board.prgOffset? · addr) (Arena.size_set ..)
  rw [hput]
  cases hat : c.prgOffset? addr with
  | none =>
    rw [hat] at hshown
    rw [if_neg nofun, Cartridge.read_eq_zero haddr hshown, Cartridge.read_eq_zero haddr hat]
  | some o =>
    rw [hat] at hshown
    rw [Cartridge.read_eq_get hshown, Cartridge.read_eq_get hat, Arena.get_set,
      Nat.mod_eq_of_lt (Cartridge.prgOffset?_lt hat), Nat.mod_eq_of_lt hoffset]
    simp only [Option.some.injEq]

/-- When a patch is applied, and what applying it leads to. -/
theorem insert_ok_iff {l l' : Ledger} {c c' : Cartridge} {code : Code} {id : Id} :
    l.insert c code = .ok (id, l', c') ↔
      ∃ offset, c.prgOffset? code.address = some offset ∧
        (∀ e, code.compare = some e → c.read code.address = e) ∧ id = ⟨l.nextId⟩ ∧
        l' = ⟨l.applied ++ [⟨id, code, offset, c.prg.get offset⟩], l.nextId + 1⟩ ∧
        c' = Ledger.putByte c offset code.value := by
  unfold Ledger.insert
  cases hoffset : c.prgOffset? code.address with
  | none => exact iff_of_false nofun nofun
  | some offset =>
    have hread : c.read code.address = c.prg.get offset := Cartridge.read_eq_get hoffset
    have hexpected : code.compare.getD (c.prg.get offset) = c.prg.get offset ↔
        ∀ e, code.compare = some e → c.read code.address = e := by
      rw [hread]
      cases code.compare with
      | none => exact iff_of_true rfl nofun
      | some e => simp [eq_comm]
    dsimp only
    by_cases h : code.compare.getD (c.prg.get offset) = c.prg.get offset
    · rw [if_pos h]
      constructor
      · rintro ⟨⟩
        exact ⟨offset, rfl, hexpected.mp h, rfl, rfl, rfl⟩
      · rintro ⟨_, ⟨⟩, -, rfl, rfl, rfl⟩
        rfl
    · rw [if_neg h]
      refine iff_of_false nofun ?_
      rintro ⟨_, -, hcompare, -⟩
      exact h (hexpected.mpr hcompare)

/-! ## Identities -/

/-- The identity that an answer hands out. -/
def Answer.handed? : Answer → Option Id
  | .inserted id _ _ => some id
  | _ => none

/-- The identities that a list of answers hands out, the latest last. -/
def handed (answers : List Answer) : List Id := answers.filterMap Answer.handed?

namespace Bench

/-- Applying a patch hands out the number of the next and counts it; nothing else does either. -/
theorem handed?_act (b : Bench) (a : Act) :
    (b.act a).1.handed? = some ⟨b.ledger.nextId⟩ ∧
        (b.act a).2.ledger.nextId = b.ledger.nextId + 1 ∨
      (b.act a).1.handed? = none ∧ (b.act a).2.ledger.nextId = b.ledger.nextId := by
  cases a with
  | insert code =>
    cases hinsert : b.ledger.insert b.cartridge code with
    | ok out =>
      obtain ⟨id, l, c⟩ := out
      obtain ⟨offset, -, -, rfl, rfl, -⟩ := insert_ok_iff.mp hinsert
      rw [act, hinsert]
      exact .inl ⟨rfl, rfl⟩
    | error e =>
      rw [act, hinsert]
      exact .inr ⟨rfl, rfl⟩
  | erase id =>
    cases herase : b.ledger.erase b.cartridge id with
    | ok out =>
      obtain ⟨code, l, c⟩ := out
      obtain ⟨_, _, _, _, _, _, hnext, _⟩ := erase_ok herase
      rw [act, herase]
      exact .inr ⟨rfl, hnext⟩
    | error e =>
      rw [act, herase]
      exact .inr ⟨rfl, rfl⟩
  | clear => exact .inr ⟨rfl, rfl⟩
  | play a => exact .inr ⟨rfl, rfl⟩

/-- A history hands out consecutive numbers, by induction over its acts. -/
theorem numbered_run (b : Bench) (acts : List Act) :
    (∀ k (h : k < (handed (b.run acts).1).length),
      (handed (b.run acts).1)[k].number = b.ledger.nextId + .ofNat k) ∧
    (b.run acts).2.ledger.nextId = b.ledger.nextId + .ofNat (handed (b.run acts).1).length := by
  induction acts generalizing b with
  | nil => exact ⟨nofun, (UInt32.add_zero _).symm⟩
  | cons a rest ih =>
    obtain ⟨hnumbers, hnext⟩ := ih (b.act a).2
    have hlast : (b.run (a :: rest)).2 = ((b.act a).2.run rest).2 := rfl
    have hanswers : (b.run (a :: rest)).1 = (b.act a).1 :: ((b.act a).2.run rest).1 := rfl
    rw [hlast, hanswers, handed]
    rcases b.handed?_act a with ⟨hhanded, hcount⟩ | ⟨hhanded, hsame⟩
    · have hshift (k : Nat) : (b.act a).2.ledger.nextId + .ofNat k =
          b.ledger.nextId + .ofNat (k + 1) := by
        rw [hcount, UInt32.add_assoc, UInt32.add_comm 1, UInt32.ofNat_add]
        rfl
      rw [List.filterMap_cons_some hhanded]
      refine ⟨fun k hk => ?_, hnext.trans (hshift _)⟩
      cases k with
      | zero => exact (UInt32.add_zero _).symm
      | succ k => exact (hnumbers k (Nat.lt_of_succ_lt_succ hk)).trans (hshift k)
    · rw [List.filterMap_cons_none hhanded, ← hsame]
      exact ⟨hnumbers, hnext⟩

/-- The number of the next patch is not one of the latest. -/
theorem nextId_fresh (b : Bench) (acts : List Act) :
    ⟨(b.run acts).2.ledger.nextId⟩ ∉ (handed (b.run acts).1).rtake (2 ^ 32 - 1) := by
  obtain ⟨hnumbers, hnext⟩ := b.numbered_run acts
  intro hlatest
  rw [List.rtake] at hlatest
  obtain ⟨k, hk, hsame⟩ := List.getElem_of_mem hlatest
  rw [List.length_drop] at hk
  rw [List.getElem_drop] at hsame
  have hnumber := (hnumbers _ (by omega)).symm.trans (congrArg Id.number hsame)
  rw [hnext] at hnumber
  have hwrapped := congrArg UInt32.toNat ((UInt32.add_right_inj _).mp hnumber)
  rw [UInt32.toNat_ofNat', UInt32.toNat_ofNat'] at hwrapped
  omega

end Bench

/-! ## One patch -/

namespace Bench

/-- The address of a patch shows the byte of program ROM at an offset, and the processor reads the
expected byte there. -/
def Accepts (b : Bench) (code : Code) (offset : Nat) : Prop :=
  b.cartridge.prgOffset? code.address = some offset ∧
    ∀ e, code.compare = some e → b.cartridge.read code.address = e

/-- What applying a patch to the byte at an offset makes of a bench. -/
structure Patched (b : Bench) (code : Code) (offset : Nat) (id : Id) (after : Bench) : Prop where
  /-- The processor reads the new byte where that offset is shown, and elsewhere what it did. -/
  read : ∀ addr, Image.romStart ≤ addr → after.cartridge.read addr =
    if b.cartridge.prgOffset? addr = some offset then code.value else b.cartridge.read addr
  /-- Registers, pattern memory and work RAM stay. -/
  kept : ∃ prg, after.cartridge = { b.cartridge with prg }
  /-- The patch joins the active ones. -/
  active : after.ledger.active = b.ledger.active ++ [(id, code)]

end Bench

/-- **One patch after any history.**  A patch is applied when its address shows a byte of program
ROM and the processor reads the expected byte there.  The processor then reads the new byte at all
addresses that show the byte patched, and at the others what it read before.  The identity is none
of the last `2 ^ 32 - 1` that the history handed out.  A patch that is refused changes nothing. -/
theorem patched_exactly (start : Bench) (acts : List Act) (code : Code) :
    let history := start.run acts
    let b := history.2
    (∀ offset, b.Accepts code offset →
      ∃ id after, b.ledger.insert b.cartridge code = .ok (id, after.ledger, after.cartridge) ∧
        b.Patched code offset id after ∧ id ∉ (handed history.1).rtake (2 ^ 32 - 1)) ∧
    ((¬∃ offset, b.Accepts code offset) →
      ∃ e, b.ledger.insert b.cartridge code = .error e ∧
        b.act (.insert code) = (.refused e, b)) := by
  intro history b
  constructor
  · rintro offset ⟨hoffset, hcompare⟩
    have hinside := Cartridge.prgOffset?_lt hoffset
    refine ⟨_, ⟨_, _⟩, insert_ok_iff.mpr ⟨offset, hoffset, hcompare, rfl, rfl, rfl⟩, ?_,
      start.nextId_fresh acts⟩
    constructor
    case read => exact fun addr haddr => read_putByte hinside code.value haddr
    case kept => exact ⟨_, if_pos hinside⟩
    case active => exact List.map_append
  · intro hrefused
    cases hinsert : b.ledger.insert b.cartridge code with
    | ok out =>
      obtain ⟨offset, hoffset, hcompare, -⟩ := insert_ok_iff.mp hinsert
      exact absurd ⟨offset, hoffset, hcompare⟩ hrefused
    | error e =>
      refine ⟨e, rfl, ?_⟩
      rw [Bench.act, hinsert]

/-- Four bytes that are shown over and over: the second patch is seen at the last address but two,
the first still at the one before it, and a patch that expects another byte is refused. -/
theorem patched_exactly_mirrored :
    let start : Bench := ⟨.empty, ⟨.fixed ⟨.horizontal, 0x8000, false, 0⟩,
      ⟨#[1, 2, 3, 4], by decide⟩, .zeros 1, true, .zeros 1⟩⟩
    let history := start.run [.insert ⟨0x8000, 9, none⟩]
    (∃ (id : Id) (after : Bench), history.2.ledger.insert history.2.cartridge
        ⟨0x8001, 0xAA, some 2⟩ = .ok (id, after.ledger, after.cartridge) ∧
      after.cartridge.read 0xFFFD = 0xAA ∧ after.cartridge.read 0xFFFC = 9 ∧ id ≠ ⟨0⟩) ∧
    (history.2.act (.insert ⟨0x8001, 0xAA, some 3⟩)).2 = history.2 := by
  intro start history
  obtain ⟨haccepted, -⟩ := patched_exactly start [.insert ⟨0x8000, 9, none⟩] ⟨0x8001, 0xAA, some 2⟩
  obtain ⟨-, hrefused⟩ := patched_exactly start [.insert ⟨0x8000, 9, none⟩] ⟨0x8001, 0xAA, some 3⟩
  constructor
  · obtain ⟨id, after, hinsert, hpatched, hfresh⟩ :=
      haccepted 1 ⟨by decide, fun e he => by cases he; decide⟩
    refine ⟨id, after, hinsert, ?_, ?_, ?_⟩
    · exact (hpatched.read 0xFFFD (by decide)).trans (by decide)
    · exact (hpatched.read 0xFFFC (by decide)).trans (by decide)
    · rintro rfl
      exact hfresh (by decide)
  · have hother : ¬∃ offset, history.2.Accepts ⟨0x8001, 0xAA, some 3⟩ offset := by
      rintro ⟨offset, -, hcompare⟩
      exact absurd (hcompare 3 rfl) (by decide)
    obtain ⟨e, -, hact⟩ := hrefused hother
    exact congrArg Prod.snd hact

end Famicom.Patch
