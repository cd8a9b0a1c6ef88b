import Famicom.Json.Reader
import Famicom.Proofs.Json.Scanning

/-!
# Reading piece by piece

The text of a value is read alike wherever it stands: inside any open arrays and objects, and in
front of any comma or closing bracket.

* `Reader.read_value_append`, `Reader.read_items_append` — reading a value and then what follows it.
* `Reader.read_step` — reading one token and then what follows it.
-/

namespace Famicom.Json.Reader

open Token

/-! ## Inside more frames -/

/-- The state inside further open frames. -/
def State.inside (outer : List Frame) : State → State
  | .value frames => .value (frames ++ outer)
  | .items frames => .items (frames ++ outer)
  | .fields frames => .fields (frames ++ outer)
  | .key frames before => .key (frames ++ outer) before
  | .colon frames before name => .colon (frames ++ outer) before name
  | .done frames v => .done (frames ++ outer) v

theorem startValue_inside (outer : List Frame) (frames : List Frame) (token : Token) :
    startValue (frames ++ outer) token =
      (startValue frames token).map (State.inside outer) := by
  cases token <;> rfl

/-- Frames further out make no difference to a step. -/
theorem next_inside (outer : List Frame) {s t : State} {token : Token}
    (h : next s token = some t) : next (s.inside outer) token = some (t.inside outer) := by
  have hstart (frames : List Frame) (hstart : startValue frames token = some t) :
      startValue (frames ++ outer) token = some (t.inside outer) :=
    (startValue_inside outer frames token).trans (congrArg (Option.map (State.inside outer)) hstart)
  cases s with
  | value frames => exact hstart frames h
  | items frames =>
    cases token with
    | rightBracket =>
      cases h
      rfl
    | _ => exact hstart (.array [] :: frames) h
  | fields frames | key frames _ | colon frames _ _ => cases token <;> cases h <;> rfl
  | done frames v =>
    cases frames with
    | nil => cases h
    | cons frame frames => cases frame <;> cases token <;> cases h <;> rfl

theorem run_cons (s : State) (token : Token) (tokens : List Token) :
    run s (token :: tokens) = (next s token).bind (run · tokens) := by
  cases h : next s token <;> simp [run, h]

theorem run_nil_eq_some {s : State} {j : Json} (h : run s [] = some j) : s = .done [] j := by
  unfold run at h
  split at h
  · cases h
    rfl
  · cases h
  · next heq => cases heq

/-- A value that is complete at the end of its own tokens is complete inside further frames. -/
theorem run_inside (outer : List Frame) (more : List Token) {s : State} {tokens : List Token}
    {j : Json} (h : run s tokens = some j) :
    run (s.inside outer) (tokens ++ more) = run (.done outer j) more := by
  -- On the tokens; that no frame of its own is open at their end is what `run` asks for.
  induction tokens generalizing s with
  | nil =>
    obtain rfl := run_nil_eq_some h
    rfl
  | cons token tokens ih =>
    rw [run_cons] at h
    obtain ⟨t, hnext, hrun⟩ := Option.bind_eq_some_iff.mp h
    rw [List.cons_append, run_cons, next_inside outer hnext]
    exact ih hrun

/-! ## Texts -/

/-- Run the machine over the tokens of a text. -/
def read (s : State) (cs : List Char) : Option Json := (scan cs).bind (run s)

/-- The characters are the text of the value. -/
def Denotes (cs : List Char) (j : Json) : Prop := read (.value []) cs = some j

theorem ofText?_eq_some_iff {text : String} {j : Json} :
    ofText? text = some j ↔ Denotes text.toList j := Iff.rfl

variable {cs rest : List Char} {j : Json}

theorem Denotes.exists_tokens (h : Denotes cs j) :
    ∃ tokens, scan cs = some tokens ∧ run (.value []) tokens = some j :=
  Option.bind_eq_some_iff.mp h

/-- Reading a value leads to where what follows it is read. -/
theorem read_value_append (h : Denotes cs j) (hrest : Stops rest) (frames : List Frame) :
    read (.value frames) (cs ++ rest) = read (.done frames j) rest := by
  obtain ⟨tokens, hscan, hrun⟩ := h.exists_tokens
  rw [read, scan_append hrest hscan, Option.bind_map]
  exact Option.bind_congr fun more _ => run_inside frames more hrun

/-- The first token of a value does not close an array. -/
theorem next_items_of_startValue {frames outer : List Frame} {token : Token} {t : State}
    (h : startValue outer token = some t) :
    next (.items frames) token = next (.value (.array [] :: frames)) token := by
  cases token <;> first | rfl | cases h

/-- The first element of an array is read as any value. -/
theorem read_items_append (h : Denotes cs j) (hrest : Stops rest) (frames : List Frame) :
    read (.items frames) (cs ++ rest) = read (.done (.array [] :: frames) j) rest := by
  rw [← read_value_append h hrest]
  obtain ⟨tokens, hscan, hrun⟩ := h.exists_tokens
  rw [read, read, scan_append hrest hscan, Option.bind_map, Option.bind_map]
  cases tokens with
  | nil => cases hrun
  | cons token tokens =>
    rw [run_cons] at hrun
    obtain ⟨t, hstart, -⟩ := Option.bind_eq_some_iff.mp hrun
    refine Option.bind_congr fun more _ => ?_
    simp only [Function.comp_apply, List.cons_append, run_cons, next_items_of_startValue hstart]

/-- Reading one token and then what follows it. -/
theorem read_step {c : Char} {token : Token} (hc : isBlank c = false)
    (h : scanOne (c :: cs) = some (token, rest)) (s : State) :
    read s (c :: cs) = (next s token).bind (read · rest) := by
  rw [read, scan_of_scanOne hc h, Option.bind_map]
  simp only [Function.comp_def, run_cons]
  cases next s token with
  | none => simp
  | some t => rfl

end Famicom.Json.Reader
