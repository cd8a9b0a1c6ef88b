import Famicom.Cartridge.Basic
import Famicom.Patch.Code

/-!
# Applied patches

A patch is applied to the byte of program ROM that its address shows at that moment.  The ledger
remembers which patches are active and the bytes they replaced, so that they can be taken back in
any order: when a patch is removed from under a later one on the same byte, the later one inherits
the byte that the first had replaced.
-/

namespace Famicom.Patch

/-- The identity of an applied patch. -/
structure Id where
  number : UInt32
  deriving DecidableEq, Repr

/-- An active patch, the offset in program ROM it sits at and the byte it replaced. -/
structure Applied where
  id : Id
  code : Code
  offset : Nat
  replaced : UInt8
  deriving DecidableEq, Repr

/-- The active patches in the order of application, and the number of the next. -/
structure Ledger where
  applied : List Applied
  nextId : UInt32
  deriving DecidableEq, Repr

/-- Why a patch cannot be applied or taken back. -/
inductive Error
  | badCode (e : Code.Error)
  | notMapped (addr : UInt16)
  | mismatch (addr : UInt16) (expected found : UInt8)
  | notActive (id : Id)
  deriving DecidableEq, Repr

/-- The wording of an error. -/
def Error.message : Error → String
  | badCode e => e.message
  | notMapped addr => s!"patch address ${Hex.word addr} is not mapped to PRG ROM"
  | mismatch addr expected found =>
    s!"compare byte mismatch at ${Hex.word addr}: expected ${Hex.byte expected}, " ++
      s!"found ${Hex.byte found}"
  | notActive id => s!"no active patch with id {id.number}"

namespace Ledger

/-- No patches yet. -/
def empty : Ledger := ⟨[], 0⟩

/-- Nothing is patched. -/
def isEmpty (l : Ledger) : Bool := l.applied.isEmpty

/-- The active patches with their identities. -/
def active (l : Ledger) : List (Id × Code) := l.applied.map fun p => (p.id, p.code)

/-- Put a byte into the program ROM of a cartridge.  Past the end of the ROM nothing changes: a
ledger can be kept while a smaller cartridge takes the place of the patched one. -/
def putByte (c : Cartridge) (offset : Nat) (value : UInt8) : Cartridge :=
  if offset < c.prg.size then { c with prg := c.prg.set offset value } else c

/-- Apply a patch. -/
def insert (l : Ledger) (c : Cartridge) (code : Code) : Except Error (Id × Ledger × Cartridge) :=
  match c.prgOffset? code.address with
  | none => throw (.notMapped code.address)
  | some offset =>
    let current := c.prg.get offset
    let expected := code.compare.getD current
    if expected = current then
      let id : Id := ⟨l.nextId⟩
      return (id, ⟨l.applied ++ [⟨id, code, offset, current⟩], l.nextId + 1⟩,
        putByte c offset code.value)
    else throw (.mismatch code.address expected current)

/-- Let the first of the patches that sits at the offset of `removed` inherit the byte that
`removed` had replaced; no answer if none sits there. -/
def inherit? (removed : Applied) : List Applied → Option (List Applied)
  | [] => none
  | p :: rest =>
    if p.offset = removed.offset then some ({ p with replaced := removed.replaced } :: rest)
    else (inherit? removed rest).map (p :: ·)

/-- Take a patch back. -/
def erase (l : Ledger) (c : Cartridge) (id : Id) : Except Error (Code × Ledger × Cartridge) :=
  let earlier := l.applied.takeWhile (·.id ≠ id)
  match l.applied.dropWhile (·.id ≠ id) with
  | [] => throw (.notActive id)
  | removed :: later =>
    match inherit? removed later with
    | some later => return (removed.code, { l with applied := earlier ++ later }, c)
    | none =>
      return (removed.code, { l with applied := earlier ++ later },
        putByte c removed.offset removed.replaced)

/-- Take all patches back, the latest first; gives their number. -/
def clear (l : Ledger) (c : Cartridge) : Nat × Ledger × Cartridge :=
  (l.applied.length, { l with applied := [] },
    l.applied.foldr (fun p c => putByte c p.offset p.replaced) c)

end Ledger

end Famicom.Patch
