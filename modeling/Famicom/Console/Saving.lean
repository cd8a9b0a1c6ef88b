import Famicom.Console.Basic

/-!
# Patching, saving and restoring a running program
-/

namespace Famicom.Console

/-! ## Patches -/

/-- Apply the patch that a text spells. -/
def addPatch (text : String) : Run Patch.Id := do
  match Patch.Code.decode text with
  | .error e => throw (.badPatch (.badCode e))
  | .ok code =>
    let c ← cartridge
    match (← get).patches.insert c code with
    | .error e => throw (.badPatch e)
    | .ok (id, patches, c) =>
      modify fun s => { s with patches, bus := s.bus.attach c }
      report (.patched code)
      return id

/-- Take a patch back. -/
def removePatch (id : Patch.Id) : Run Unit := do
  let c ← cartridge
  match (← get).patches.erase c id with
  | .error e => throw (.badPatch e)
  | .ok (code, patches, c) =>
    modify fun s => { s with patches, bus := s.bus.attach c }
    report (.unpatched code)

/-- Take all patches back; gives their number. -/
def removePatches : StateM Console Nat := do
  match (← get).bus.cartridge with
  | none => return 0
  | some c =>
    let (n, patches, c) := (← get).patches.clear c
    modify fun s => { s with patches, bus := s.bus.attach c }
    if 0 < n then report (.allUnpatched n)
    return n

/-! ## Snapshots -/

/-- A snapshot of the running program. -/
def snapshot (c : Console) : Except Error Snapshot :=
  match c.bus.cartridge, c.program with
  | some cartridge, some program =>
    return {
      version := Snapshot.currentVersion
      fingerprint := program.fingerprint
      cpu := c.cpu
      ram := c.bus.ram.toArray
      cartridge := cartridge.save
      apu := c.bus.apu }
  | _, _ => throw .noProgram

/-- The audio unit of a snapshot, made safe to run under the given settings. -/
def adoptApu (s : Settings) (a : Sound.Apu) : Sound.Apu :=
  (a.confine.withSampleRate s.sampleRate).withMixing s.mixing

/-- Go back to a snapshot of the same program image. -/
def restore (s : Snapshot) : Run Unit := do
  if s.version ≠ Snapshot.currentVersion then throw (.wrongVersion s.version)
  let some program := (← get).program | throw .noProgram
  if s.fingerprint ≠ program.fingerprint then
    throw (.otherImage s.fingerprint program.fingerprint)
  if h : s.ram.size = 2048 then
    let c ← cartridge
    match c.restore s.cartridge with
    | .error e => throw (.badCartridge e)
    | .ok c =>
      modify fun k => { k with
        cpu := s.cpu
        bus := { k.bus with
          ram := ⟨s.ram, h⟩
          apu := adoptApu k.settings s.apu
          cartridge := some c }
        nmiRequested := false
        haltLogged := s.cpu.halt.isSome }
      report (.restored s.cpu.pc)
  else throw (.wrongRamSize s.ram.size)

end Famicom.Console
