import Famicom.Proofs.Cartridge.Acts

/-!
# A saved state holds all that use can change

`Cartridge.Operation` lists everything that can be done to a cartridge or asked of it, and
`Cartridge.operate` does it.  Cartridges that were made from one image stay kin whatever is done to
them, so the state of one can be restored in the other; and nothing of the other shows through.

* `kin_operate`, `kin_run` — one operation, and every run of them.
* `restored_answers` — the restored cartridge answers like the one that was saved.
-/

namespace Famicom.Cartridge

/-- Something that can be done to a cartridge or asked of it. -/
inductive Operation
  | act (a : Act)
  /-- A store of the host into work RAM, past all protection. -/
  | putWorkRam (index : Nat) (value : UInt8)
  | read (addr : UInt16)
  | chrRead (addr : UInt16)
  | prgOffset (addr : UInt16)
  | prgBank (addr : UInt16)
  | chrBank (addr : UInt16)
  | mirroring
  | irqPending
  | save
  | describe

/-- The answer to an operation. -/
inductive Answer
  | done
  | refused (e : Error)
  | byte (value : UInt8)
  | place (offset : Option Nat)
  | bank (number : Nat)
  | screens (m : Mirroring)
  | flag (b : Bool)
  | state (s : State)
  | text (line : String)
  deriving DecidableEq

/-- Whether an act is done; only a saved state can be refused. -/
def answer (c : Cartridge) : Act → Answer
  | .restore s =>
    match c.restore s with
    | .ok _ => .done
    | .error e => .refused e
  | _ => .done

/-- The answer to an operation, and the cartridge after it. -/
def operate (c : Cartridge) : Operation → Answer × Cartridge
  | .act a => (c.answer a, c.acted a)
  | .putWorkRam index value => (.done, { c with workRam := c.workRam.set index value })
  | .read addr => (.byte (c.read addr), c)
  | .chrRead addr => (.byte (c.chrRead addr), c)
  | .prgOffset addr => (.place (c.prgOffset? addr), c)
  | .prgBank addr => (.place (c.prgBank? addr), c)
  | .chrBank addr => (.bank (c.chrBank addr), c)
  | .mirroring => (.screens c.board.mirroring, c)
  | .irqPending => (.flag c.board.irqPending, c)
  | .save => (.state c.save, c)
  | .describe => (.text c.describe, c)

/-- The answers to a run of operations, and the cartridge after it. -/
def run : List Operation → Cartridge → List Answer × Cartridge
  | [], c => ([], c)
  | op :: rest, c =>
    let (answer, c) := c.operate op
    let (answers, c) := c.run rest
    (answer :: answers, c)

/-! ## Kinship lasts -/

/-- No operation changes which states fit a cartridge. -/
theorem kin_operate (c : Cartridge) (op : Operation) : Kin c (c.operate op).2 := by
  cases op with
  | act a => exact kin_acted c a
  | putWorkRam index value =>
    exact ⟨fun _ => rfl, rfl, rfl, (Arena.size_set ..).symm, rfl, fun _ => rfl⟩
  | _ => exact .refl c

/-- No run of operations changes which states fit a cartridge. -/
theorem kin_run (ops : List Operation) (c : Cartridge) : Kin c (c.run ops).2 := by
  induction ops generalizing c with
  | nil => exact .refl c
  | cons op rest ih => exact (kin_operate c op).trans (ih (c.operate op).2)

/-- The state of a cartridge turns its kin into the same cartridge. -/
theorem Kin.restore_save {c d : Cartridge} (h : Kin c d) : d.restore c.save = .ok c :=
  h.restore_eq_ok c.restore_save

/-- **Saving and restoring.**  Two cartridges are made from one image, and anything is done with
each of them.  Then the state of the first can be restored in the second, and from there on the
second gives the same answers as the first to every run of operations, and ends in the same
state. -/
theorem restored_answers {i : Image} {c d : Cartridge} (hc : ofImage i = .ok c)
    (hd : ofImage i = .ok d) (before other : List Operation) :
    let saved := (c.run before).2
    ∃ r, (d.run other).2.restore saved.save = .ok r ∧
      ∀ later, (r.run later).1 = (saved.run later).1 ∧
        (r.run later).2.save = (saved.run later).2.save := by
  intro saved
  have heq : c = d := Except.ok.inj (hc.symm.trans hd)
  have hkin : Kin saved (d.run other).2 :=
    (kin_run before c).symm.trans (heq ▸ kin_run other d)
  exact ⟨saved, hkin.restore_save, fun later => ⟨rfl, rfl⟩⟩

/-- The image of a cartridge with the FFE board. -/
def copier : Image where
  mapper := 17
  mirroring := .horizontal
  fourScreen := false
  battery := false
  prg := #[0xEA]
  chr := #[]
  chrIsRam := true
  workRamSize := 0
  loadAddress := Image.romStart
  sound := none

/-- The interrupt counter of one cartridge goes on in another. -/
theorem restored_answers_copier :
    ∃ c, ofImage copier = .ok c ∧
      ∃ r, (c.run [.act (.ticks 5), .putWorkRam 0 7]).2.restore
          (c.run [.act (.write 0x4502 0xFF), .act (.write 0x4503 0xFF)]).2.save = .ok r ∧
        (r.run [.irqPending, .act (.ticks 1), .irqPending]).1 =
          [.flag false, .done, .flag true] := by
  refine ⟨_, rfl, ?_⟩
  obtain ⟨r, hr, hsame⟩ := restored_answers (i := copier) rfl rfl
    [.act (.write 0x4502 0xFF), .act (.write 0x4503 0xFF)] [.act (.ticks 5), .putWorkRam 0 7]
  exact ⟨r, hr, (hsame _).1.trans (by decide)⟩

end Famicom.Cartridge
