import Famicom.Proofs.Cartridge.Acts
import Famicom.Proofs.Patch.Layers
import Mathlib.Algebra.Group.Nat.Defs
import Mathlib.Data.List.Nodup
import Mathlib.Data.List.TakeWhile

/-!
# Histories of patches

A ledger and its cartridge are used in any order: patches are applied and taken back, with success
or without, while the cartridge is played and its states are restored.  The answers alone tell
which patches stand, and the bytes of program ROM follow from those.

* `Bench.layered_act` — every act keeps the ledger linked to the bytes of the image.
* `run_shows_latest_standing` — at every point of every history, each byte is the value of the
  latest standing patch on it, or the byte of the image.
-/

namespace Famicom.Patch

/-! ## Acts and answers -/

/-- A ledger and the cartridge that it patches. -/
structure Bench where
  ledger : Ledger
  cartridge : Cartridge

/-- Something done with a ledger and its cartridge. -/
inductive Act
  | insert (code : Code)
  | erase (id : Id)
  | clear
  | play (a : Cartridge.Act)

/-- What an act answers.  A patch that was applied is told with the offset that its address showed
at that moment. -/
inductive Answer
  | inserted (id : Id) (code : Code) (offset : Option Nat)
  | erased (id : Id) (code : Code)
  | cleared (count : Nat)
  | refused (e : Error)
  | played

/-- An act changes ledger and cartridge if it succeeds. -/
def Bench.act (b : Bench) : Act → Answer × Bench
  | .insert code =>
    match b.ledger.insert b.cartridge code with
    | .ok (id, l, c) => (.inserted id code (b.cartridge.prgOffset? code.address), ⟨l, c⟩)
    | .error e => (.refused e, b)
  | .erase id =>
    match b.ledger.erase b.cartridge id with
    | .ok (code, l, c) => (.erased id code, ⟨l, c⟩)
    | .error e => (.refused e, b)
  | .clear =>
    let (n, l, c) := b.ledger.clear b.cartridge
    (.cleared n, ⟨l, c⟩)
  | .play a => (.played, ⟨b.ledger, b.cartridge.acted a⟩)

/-- The answers to a list of acts, and what they lead to. -/
def Bench.run (b : Bench) : List Act → List Answer × Bench
  | [] => ([], b)
  | a :: rest =>
    let (answer, b) := b.act a
    let (answers, b) := b.run rest
    (answer :: answers, b)

/-- A patch that stands: its identity, its code and the offset it was applied at. -/
structure Standing where
  id : Id
  code : Code
  offset : Option Nat
  deriving DecidableEq, Repr

/-- The patches that stand after an answer, in the order of application. -/
def Answer.change (standing : List Standing) : Answer → List Standing
  | .inserted id code offset => standing ++ [⟨id, code, offset⟩]
  | .erased id _ => standing.filter (·.id ≠ id)
  | .cleared _ => []
  | .refused _ => standing
  | .played => standing

/-- The patches that stand after a list of answers. -/
def standing (answers : List Answer) : List Standing := answers.foldl Answer.change []

/-- The answer tells that a patch was applied. -/
def Answer.isInserted : Answer → Bool
  | .inserted .. => true
  | _ => false

/-- The latest of the standing patches at an offset. -/
def latestStanding? (offset : Nat) (l : List Standing) : Option Standing :=
  (l.filter (·.offset = some offset)).getLast?

/-! ## The invariant -/

/-- What the answers tell of an active patch. -/
def Applied.standing (p : Applied) : Standing := ⟨p.id, p.code, some p.offset⟩

/-- After `n` applications, the active patches are the standing ones and lie as linked layers over
the bytes of the image. -/
structure Bench.Layered (image : Arena) (b : Bench) (standing : List Standing) (n : Nat) :
    Prop where
  size : b.cartridge.prg.size = image.size
  shown : ∀ o < image.size, b.cartridge.prg.get o = overlay image.get b.ledger.applied o
  linked : Linked image.get b.ledger.applied
  stands : standing = b.ledger.applied.map Applied.standing
  nextId : b.ledger.nextId.toNat = n % 2 ^ 32
  inside : ∀ p ∈ standing, ∀ o, p.offset = some o → o < image.size
  older : ∀ p ∈ standing, p.id.number.toNat < n
  distinct : (standing.map (·.id)).Nodup

theorem Bench.layered_start (c : Cartridge) : Bench.Layered c.prg ⟨.empty, c⟩ [] 0 where
  size := rfl
  shown _ _ := rfl
  linked := trivial
  stands := rfl
  nextId := rfl
  inside _ h := nomatch h
  older _ h := nomatch h
  distinct := List.nodup_nil

/-! ## Bytes -/

theorem putByte_size (c : Cartridge) (offset : Nat) (value : UInt8) :
    (Ledger.putByte c offset value).prg.size = c.prg.size := by
  unfold Ledger.putByte
  split
  · exact Arena.size_set ..
  · rfl

theorem putByte_get {c : Cartridge} {offset o : Nat} (value : UInt8) (hoffset : offset < c.prg.size)
    (ho : o < c.prg.size) :
    (Ledger.putByte c offset value).prg.get o = Function.update c.prg.get offset value o := by
  rw [Ledger.putByte, if_pos hoffset, Function.update_apply, Arena.get_set, Nat.mod_eq_of_lt ho,
    Nat.mod_eq_of_lt hoffset]

/-! ## Taking one patch back -/

theorem inherit?_standing {removed : Applied} {later inherited : List Applied}
    (h : Ledger.inherit? removed later = some inherited) :
    inherited.map Applied.standing = later.map Applied.standing := by
  induction later generalizing inherited with
  | nil => cases h
  | cons p rest ih =>
    unfold Ledger.inherit? at h
    split at h
    · cases h
      rfl
    · obtain ⟨tail, htail, rfl⟩ := Option.map_eq_some_iff.mp h
      rw [List.map_cons, List.map_cons, ih htail]

/-- What taking a patch back does: the patch of that identity goes, and either a later one inherits
the byte it replaced or the byte goes back to its place. -/
theorem erase_ok {l l' : Ledger} {c c' : Cartridge} {id : Id} {code : Code}
    (h : l.erase c id = .ok (code, l', c')) :
    ∃ earlier removed later, l.applied = earlier ++ removed :: later ∧ removed.id = id ∧
      code = removed.code ∧ l'.nextId = l.nextId ∧
      ((∃ inherited, Ledger.inherit? removed later = some inherited ∧
          l'.applied = earlier ++ inherited ∧ c' = c) ∨
        (Ledger.inherit? removed later = none ∧ l'.applied = earlier ++ later ∧
          c' = Ledger.putByte c removed.offset removed.replaced)) := by
  unfold Ledger.erase at h
  cases hdrop : l.applied.dropWhile (·.id ≠ id) with
  | nil =>
    simp only [hdrop] at h
    cases h
  | cons removed later =>
    have hsplit : l.applied = l.applied.takeWhile (·.id ≠ id) ++ removed :: later := by
      rw [← hdrop, List.takeWhile_append_dropWhile]
    have hid : removed.id = id := by
      have hhead := List.head?_dropWhile_not (fun p : Applied => decide (p.id ≠ id)) l.applied
      rw [hdrop] at hhead
      simpa using hhead
    simp only [hdrop] at h
    cases hinherit : Ledger.inherit? removed later with
    | some inherited =>
      simp only [hinherit] at h
      cases h
      exact ⟨_, removed, later, hsplit, hid, rfl, rfl, .inl ⟨_, hinherit, rfl, rfl⟩⟩
    | none =>
      simp only [hinherit] at h
      cases h
      exact ⟨_, removed, later, hsplit, hid, rfl, rfl, .inr ⟨hinherit, rfl, rfl⟩⟩

/-- Of patches with distinct identities, one is told from the others by its own. -/
theorem filter_standing {earlier later : List Applied} {p : Applied}
    (h : (((earlier ++ p :: later).map Applied.standing).map (·.id)).Nodup) :
    ((earlier ++ p :: later).map Applied.standing).filter (·.id ≠ p.id) =
      (earlier ++ later).map Applied.standing := by
  rw [List.map_append, List.map_cons, List.map_append, List.map_cons] at h
  obtain ⟨hunique, -⟩ := List.nodup_cons.mp (List.nodup_middle.mp h)
  have hother (l : List Applied) (hl : ∀ q ∈ l, q ∈ earlier ++ later) :
      (l.map Applied.standing).filter (·.id ≠ p.id) = l.map Applied.standing := by
    refine List.filter_eq_self.mpr fun s hs => decide_eq_true ?_
    obtain ⟨q, hq, rfl⟩ := List.mem_map.mp hs
    intro hid
    refine hunique ?_
    rw [← List.map_append, ← List.map_append, List.map_map]
    exact List.mem_map.mpr ⟨q, hl q hq, hid⟩
  rw [List.map_append, List.map_cons, List.filter_append,
    List.filter_cons_of_neg (by simp [Applied.standing]), List.map_append,
    hother earlier fun q hq => List.mem_append_left _ hq,
    hother later fun q hq => List.mem_append_right _ hq]

/-! ## Taking all patches back -/

/-- Putting the remembered bytes back, the latest first, uncovers what the patches lie over. -/
theorem putBack {under : Bytes} {l : List Applied} {c : Cartridge} (hlinked : Linked under l)
    (hinside : ∀ p ∈ l, p.offset < c.prg.size)
    (hshown : ∀ o < c.prg.size, c.prg.get o = overlay under l o) :
    let back := l.foldr (fun p c => Ledger.putByte c p.offset p.replaced) c
    back.prg.size = c.prg.size ∧ ∀ o < c.prg.size, back.prg.get o = under o := by
  induction l generalizing under with
  | nil => exact ⟨rfl, hshown⟩
  | cons p rest ih =>
    obtain ⟨hreplaced, hrest⟩ := hlinked
    have hp : p.offset < c.prg.size := hinside p List.mem_cons_self
    obtain ⟨hsize, hget⟩ := ih hrest (fun q hq => hinside q (List.mem_cons_of_mem _ hq)) hshown
    refine ⟨(putByte_size ..).trans hsize, ?_⟩
    intro o ho
    rw [List.foldr_cons, putByte_get _ (hsize.symm ▸ hp) (hsize.symm ▸ ho), Function.update_apply,
      hget o ho, Function.update_apply, hreplaced]
    split
    · next heq => rw [heq]
    · rfl

/-! ## Every act keeps the invariant -/

section

variable {image : Arena} {b : Bench} {st : List Standing} {n : Nat}

namespace Bench

/-- Play writes no program ROM, so the layers show as before. -/
theorem layered_play (h : Layered image b st n) (a : Cartridge.Act) :
    Layered image ⟨b.ledger, b.cartridge.acted a⟩ st n where
  size := (congrArg Arena.size (Cartridge.acted_prg ..)).trans h.size
  shown o ho := (congrArg (·.get o) (Cartridge.acted_prg ..)).trans (h.shown o ho)
  linked := h.linked
  stands := h.stands
  nextId := h.nextId
  inside := h.inside
  older := h.older
  distinct := h.distinct

/-- A patch goes on top of the layers, and what it replaces is what they showed. -/
theorem layered_insert {code : Code} {id : Id} {l : Ledger} {c : Cartridge}
    (h : Layered image b st n) (hn : n < 2 ^ 32)
    (hinsert : b.ledger.insert b.cartridge code = .ok (id, l, c)) :
    Layered image ⟨l, c⟩ (st ++ [⟨id, code, b.cartridge.prgOffset? code.address⟩]) (n + 1) := by
  unfold Ledger.insert at hinsert
  cases hoffset : b.cartridge.prgOffset? code.address with
  | none =>
    rw [hoffset] at hinsert
    cases hinsert
  | some offset =>
    simp only [hoffset] at hinsert
    split at hinsert
    case isFalse => cases hinsert
    cases hinsert
    have hlt : offset < b.cartridge.prg.size := Cartridge.prgOffset?_lt hoffset
    have hnumber : b.ledger.nextId.toNat = n := h.nextId.trans (Nat.mod_eq_of_lt hn)
    constructor
    case size => exact (putByte_size ..).trans h.size
    case shown =>
      intro o ho
      rw [putByte_get code.value hlt (h.size.symm ▸ ho), overlay_append]
      -- only the byte patched shows the new layer
      by_cases heq : o = offset
      · subst heq
        simp only [overlay, Function.update_self]
      · simp only [overlay, Function.update_of_ne heq]
        exact h.shown o ho
    case linked =>
      refine (linked_append ..).mpr ⟨h.linked, ?_, trivial⟩
      exact h.shown offset (h.size ▸ hlt)
    case stands => simp only [h.stands, List.map_append, List.map_cons, List.map_nil,
      Applied.standing]
    case nextId =>
      rw [UInt32.toNat_add, hnumber]
      rfl
    case inside =>
      intro p hp o ho
      rcases List.mem_append.mp hp with hp | hp
      · exact h.inside p hp o ho
      · rw [List.mem_singleton.mp hp] at ho
        cases ho
        exact h.size ▸ hlt
    case older =>
      intro p hp
      rcases List.mem_append.mp hp with hp | hp
      · exact Nat.lt_succ_of_lt (h.older p hp)
      · rw [List.mem_singleton.mp hp]
        exact hnumber ▸ Nat.lt_succ_self n
    case distinct =>
      refine List.map_append ▸ List.nodup_append.mpr ⟨h.distinct, List.nodup_singleton _, ?_⟩
      intro i hi j hj heq
      obtain ⟨p, hp, rfl⟩ := List.mem_map.mp hi
      have holder := h.older p hp
      rw [heq, List.mem_singleton.mp hj] at holder
      exact Nat.lt_irrefl n (hnumber ▸ holder)

theorem active_inside (h : Layered image b st n) {p : Applied} (hp : p ∈ b.ledger.applied) :
    p.offset < b.cartridge.prg.size :=
  h.size ▸ h.inside p.standing (h.stands ▸ List.mem_map_of_mem hp) p.offset rfl

/-- A patch that is taken back leaves the layers below and above it as they are. -/
theorem layered_erase {id : Id} {code : Code} {l : Ledger} {c : Cartridge}
    (h : Layered image b st n) (herase : b.ledger.erase b.cartridge id = .ok (code, l, c)) :
    Layered image ⟨l, c⟩ (st.filter (·.id ≠ id)) n := by
  obtain ⟨earlier, removed, later, hsplit, rfl, -, hnext, hcase⟩ := erase_ok herase
  have hlinked := hsplit ▸ h.linked
  obtain ⟨hbelow, hreplaced, habove⟩ := (linked_append ..).mp hlinked
  have hlt : removed.offset < b.cartridge.prg.size :=
    active_inside h (hsplit ▸ List.mem_append_right _ List.mem_cons_self)
  have hshown (o : Nat) (ho : o < image.size) : b.cartridge.prg.get o =
      overlay (Function.update (overlay image.get earlier) removed.offset removed.code.value)
        later o := by
    rw [h.shown o ho, hsplit, overlay_append]
    rfl
  have hstands : st.filter (·.id ≠ removed.id) = (earlier ++ later).map Applied.standing := by
    have hdistinct := h.distinct
    rw [h.stands, hsplit] at hdistinct ⊢
    exact filter_standing hdistinct
  have hinside (p : Standing) (hp : p ∈ st.filter (·.id ≠ removed.id)) :=
    h.inside p (List.mem_of_mem_filter hp)
  have holder (p : Standing) (hp : p ∈ st.filter (·.id ≠ removed.id)) :=
    h.older p (List.mem_of_mem_filter hp)
  have hdistinct : ((st.filter (·.id ≠ removed.id)).map (·.id)).Nodup :=
    h.distinct.sublist (List.filter_sublist.map _)
  -- either a later patch of the same byte hides the one removed, or the byte goes back
  rcases hcase with ⟨inherited, hinherit, happlied, rfl⟩ | ⟨hnone, happlied, rfl⟩
  · refine ⟨h.size, ?_, ?_, ?_, hnext ▸ h.nextId, hinside, holder, hdistinct⟩
    · intro o ho
      rw [happlied, overlay_append, overlay_inherit hinherit]
      exact hshown o ho
    · rw [happlied]
      exact (linked_append ..).mpr ⟨hbelow, linked_inherit hinherit hreplaced habove⟩
    · rw [hstands, happlied, List.map_append, List.map_append, inherit?_standing hinherit]
  · refine ⟨(putByte_size ..).trans h.size, ?_, ?_, ?_, hnext ▸ h.nextId, hinside, holder,
      hdistinct⟩
    · intro o ho
      have hsize := h.size
      rw [putByte_get _ hlt (hsize.symm ▸ ho), happlied, overlay_append, overlay_unhidden hnone,
        hreplaced, Function.update_apply, Function.update_apply, hshown o ho]
    · rw [happlied]
      exact (linked_append ..).mpr ⟨hbelow, linked_unhidden hnone habove⟩
    · rw [hstands, happlied]

/-- Without patches the image shows. -/
theorem layered_clear (h : Layered image b st n) :
    Layered image ⟨(b.ledger.clear b.cartridge).2.1, (b.ledger.clear b.cartridge).2.2⟩ [] n := by
  have hshown (o : Nat) (ho : o < b.cartridge.prg.size) := h.shown o (h.size ▸ ho)
  obtain ⟨hsize, hget⟩ := putBack h.linked (fun _ hp => active_inside h hp) hshown
  constructor
  case size => exact hsize.trans h.size
  case shown => exact fun o ho => hget o (h.size.symm ▸ ho)
  case linked => trivial
  case stands => rfl
  case nextId => exact h.nextId
  case inside => exact fun _ hp => nomatch hp
  case older => exact fun _ hp => nomatch hp
  case distinct => exact List.nodup_nil

/-- Every act keeps the invariant, whatever it answers. -/
theorem layered_act (h : Layered image b st n) (a : Act) (hn : n < 2 ^ 32) :
    Layered image (b.act a).2 ((b.act a).1.change st) (n + (b.act a).1.isInserted.toNat) := by
  cases a with
  | insert code =>
    cases hinsert : b.ledger.insert b.cartridge code with
    | ok out =>
      simp only [act, hinsert]
      exact layered_insert h hn hinsert
    | error e =>
      simp only [act, hinsert]
      exact h
  | erase id =>
    cases herase : b.ledger.erase b.cartridge id with
    | ok out =>
      simp only [act, herase]
      exact layered_erase h herase
    | error e =>
      simp only [act, herase]
      exact h
  | clear => exact layered_clear h
  | play a => exact layered_play h a

/-- Every history keeps the invariant. -/
theorem layered_run (h : Layered image b st n) (acts : List Act)
    (few : n + (b.run acts).1.countP Answer.isInserted < 2 ^ 32) :
    Layered image (b.run acts).2 ((b.run acts).1.foldl Answer.change st)
      (n + (b.run acts).1.countP Answer.isInserted) := by
  induction acts generalizing b st n with
  | nil => exact h
  | cons a rest ih =>
    have hcount : ((b.run (a :: rest)).1.countP Answer.isInserted) =
        (b.act a).1.isInserted.toNat +
          (((b.act a).2.run rest).1.countP Answer.isInserted) := by
      rw [run, List.countP_cons, Nat.add_comm]
      cases (b.act a).1.isInserted <;> rfl
    rw [hcount, ← Nat.add_assoc] at few ⊢
    exact ih (layered_act h a (by omega)) few

end Bench

end

/-! ## What every history shows -/

theorem latestStanding?_map (offset : Nat) (l : List Applied) :
    latestStanding? offset (l.map Applied.standing) = (latest? offset l).map Applied.standing := by
  have hfilter : (l.map Applied.standing).filter (·.offset = some offset) =
      (l.filter (·.offset = offset)).map Applied.standing := by
    rw [List.filter_map]
    simp [Function.comp_def, Applied.standing]
  rw [latestStanding?, hfilter, List.getLast?_map, latest?]

/-- An active patch is found by its identity and taken back. -/
theorem erase_active {l : Ledger} (c : Cartridge) {p : Applied} (hp : p ∈ l.applied)
    (hdistinct : ((l.applied.map Applied.standing).map (·.id)).Nodup) :
    ∃ earlier later l' c', l.applied = earlier ++ p :: later ∧
      l.erase c p.id = .ok (p.code, l', c') := by
  cases herase : l.erase c p.id with
  | error e =>
    -- the search by identity cannot miss a patch that is on the list
    exfalso
    unfold Ledger.erase at herase
    cases hdrop : l.applied.dropWhile (·.id ≠ p.id) with
    | nil =>
      have hother := List.dropWhile_eq_nil_iff.mp hdrop p hp
      exact of_decide_eq_true hother rfl
    | cons removed later =>
      simp only [hdrop] at herase
      split at herase <;> cases herase
  | ok out =>
    obtain ⟨code, l', c'⟩ := out
    obtain ⟨earlier, removed, later, hsplit, hid, hcode, -⟩ := erase_ok herase
    have hremoved : removed ∈ l.applied := by
      rw [hsplit]
      exact List.mem_append_right _ List.mem_cons_self
    rw [List.map_map] at hdistinct
    obtain rfl : removed = p := List.inj_on_of_nodup_map hdistinct hremoved hp hid
    exact ⟨earlier, later, l', c', hsplit, hcode ▸ rfl⟩

/-- **At every point of every history the program ROM shows the patches that stand.**  Each byte is
the value of the latest standing patch at its offset, or the byte of the image.  A standing patch is
taken back by the identity that its application gave, alone and with its own code.  When no patch
stands, the program ROM is that of the image. -/
theorem run_shows_latest_standing {c₀ : Cartridge} {acts : List Act} {answers : List Answer}
    {b : Bench} (hrun : Bench.run ⟨.empty, c₀⟩ acts = (answers, b))
    (few : answers.countP Answer.isInserted < 2 ^ 32) :
    b.ledger.active = (standing answers).map (fun p => (p.id, p.code)) ∧
      b.cartridge.prg.size = c₀.prg.size ∧
      (∀ o < c₀.prg.size, b.cartridge.prg.get o =
        ((latestStanding? o (standing answers)).map (·.code.value)).getD (c₀.prg.get o)) ∧
      (∀ p ∈ standing answers, ∃ earlier later, standing answers = earlier ++ p :: later ∧
        (b.act (.erase p.id)).1 = .erased p.id p.code ∧
        (standing answers).filter (·.id ≠ p.id) = earlier ++ later ∧
        (b.act (.erase p.id)).2.ledger.active =
          (earlier ++ later).map (fun p => (p.id, p.code))) ∧
      (standing answers = [] → b.cartridge.prg = c₀.prg) := by
  have h : Bench.Layered c₀.prg b (standing answers) (0 + answers.countP Answer.isInserted) := by
    have hlayered := Bench.layered_run (Bench.layered_start c₀) acts
    rw [hrun, Nat.zero_add] at hlayered
    rw [Nat.zero_add]
    exact hlayered few
  have hshown (o : Nat) (ho : o < c₀.prg.size) : b.cartridge.prg.get o =
      ((latestStanding? o (standing answers)).map (·.code.value)).getD (c₀.prg.get o) := by
    rw [h.shown o ho, overlay_eq_latest, h.stands, latestStanding?_map, Option.map_map]
    rfl
  have hactive {b : Bench} {st : List Standing} {n : Nat} (h : Bench.Layered c₀.prg b st n) :
      b.ledger.active = st.map (fun p => (p.id, p.code)) := by
    rw [h.stands, List.map_map]
    rfl
  refine ⟨hactive h, h.size, hshown, ?_, ?_⟩
  · intro s hs
    have hdistinct := h.distinct
    rw [h.stands] at hs hdistinct
    obtain ⟨p, hp, rfl⟩ := List.mem_map.mp hs
    obtain ⟨earlier, later, l', c', hsplit, herase⟩ := erase_active b.cartridge hp hdistinct
    have hrest : (standing answers).filter (·.id ≠ p.id) =
        (earlier ++ later).map Applied.standing := by
      rw [h.stands]
      rw [hsplit] at hdistinct ⊢
      exact filter_standing hdistinct
    refine ⟨earlier.map Applied.standing, later.map Applied.standing, ?_, ?_, ?_, ?_⟩
    · rw [h.stands, hsplit, List.map_append, List.map_cons]
    · simp only [Bench.act, Applied.standing, herase]
    · rw [← List.map_append]
      exact hrest
    · have hafter := hactive (Bench.layered_erase h herase)
      rw [hrest, List.map_append] at hafter
      simpa only [Bench.act, Applied.standing, herase] using hafter
  · intro hnone
    rw [hnone] at hshown
    exact Arena.ext_get h.size fun o ho => hshown o (h.size ▸ ho)

/-- Two patches on one byte, the first of which is taken back. -/
theorem run_shows_latest_standing_stacked :
    let c₀ : Cartridge :=
      ⟨.fixed ⟨.horizontal, 0x8000, false, 0⟩, ⟨#[1, 2, 3, 4], by decide⟩, .zeros 1, true, .zeros 1⟩
    let acts : List Act :=
      [.insert ⟨0x8001, 0xAA, none⟩, .insert ⟨0x8001, 0xBB, some 0xAA⟩, .erase ⟨0⟩]
    let (answers, b) := Bench.run ⟨.empty, c₀⟩ acts
    answers.countP Answer.isInserted < 2 ^ 32 ∧
      standing answers = [⟨⟨1⟩, ⟨0x8001, 0xBB, some 0xAA⟩, some 1⟩] ∧
      b.cartridge.prg.get 1 = 0xBB := by
  intro c₀ acts
  have h := @run_shows_latest_standing c₀ acts _ _ rfl (by decide)
  exact ⟨by decide, by decide, h.2.2.1 1 (by decide)⟩

end Famicom.Patch
