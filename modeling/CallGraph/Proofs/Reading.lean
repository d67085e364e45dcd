/-
  CallGraph.Proofs.Reading — a value that was written is read back.

  The reader is at a place where a value is wanted. The words of a value take it to where the value is put, whatever
  stands around (`Lands`); for an array and an object that goes item by item and field by field, with what was read
  before in the reader. With the scanner's half (`lex_write`) the text of a value is read as that value
  (`parse?_render`).
-/

import CallGraph.Json.Reader
import CallGraph.Proofs.Spelling

namespace CallGraph.Json

namespace Reader

variable {ws : List Token} {outer : List Level}

/-- The reader behind some words. -/
def behind (r : Reader) (ws : List Token) : Option Reader := ws.foldlM feed r

theorem behind_cons {r q : Reader} {w : Token} (h : r.feed w = some q) : r.behind (w :: ws) = q.behind ws := by
  unfold behind
  rw [List.foldlM_cons, h]
  rfl

/-- The words of a value put the value where it is wanted. -/
def Lands (j : Json) : Prop :=
  ∀ (ws : List Token) (outer : List Level), behind (.value outer) (words j ++ ws) = (place j outer).behind ws

/-! ## Items -/

theorem behind_items {j : Json} {js : List Json} (h : ∀ j' ∈ j :: js, Lands j') (before : List Json)
    (outer : List Level) (ws : List Token) :
    behind (.value (.array before :: outer)) (wordsOfItems (j :: js) ++ .closeArray :: ws) =
      (place (.array (before.reverse ++ j :: js)) outer).behind ws := by
  induction js generalizing j before with
  | nil =>
    show behind _ (words j ++ .closeArray :: ws) = _
    rw [h j List.mem_cons_self, behind_cons (q := place (.array (j :: before).reverse) outer) rfl, List.reverse_cons]
  | cons j' js ih =>
    show behind _ ((words j ++ .comma :: wordsOfItems (j' :: js)) ++ .closeArray :: ws) = _
    rw [List.append_assoc, h j List.mem_cons_self, List.cons_append,
      behind_cons (q := .value (.array (j :: before) :: outer)) rfl, ih fun i hi => h i (List.mem_cons_of_mem _ hi),
      List.reverse_cons, List.append_assoc]
    rfl

/-- No value starts with a closing bracket. -/
theorem words_eq_cons (j : Json) : ∃ w more, words j = w :: more ∧ w ≠ .closeArray := by
  cases j
  all_goals exact ⟨_, _, rfl, nofun⟩

theorem wordsOfItems_eq_cons (j : Json) (js : List Json) :
    ∃ w more, wordsOfItems (j :: js) = w :: more ∧ w ≠ .closeArray := by
  obtain ⟨w, more, hj, hw⟩ := words_eq_cons j
  cases js with
  | nil => exact ⟨w, more, hj, hw⟩
  | cons j' js =>
    refine ⟨w, more ++ .comma :: wordsOfItems (j' :: js), ?_, hw⟩
    show words j ++ _ = _
    rw [hj, List.cons_append]

/-- Behind an opening bracket the first item is wanted, unless the array ends there. -/
theorem behind_firstItem {w : Token} (hw : w ≠ .closeArray) :
    behind (.firstItem outer) (w :: ws) = behind (.value (.array [] :: outer)) (w :: ws) := by
  have hfeed : feed (.firstItem outer) w = feed (.value (.array [] :: outer)) w := by
    cases w
    case closeArray => exact absurd rfl hw
    all_goals rfl
  unfold behind
  rw [List.foldlM_cons, List.foldlM_cons, hfeed]

theorem lands_array {items : List Json} (h : ∀ j ∈ items, Lands j) : Lands (.array items) := by
  intro ws outer
  show behind _ (.openArray :: ((wordsOfItems items ++ [.closeArray]) ++ ws)) = _
  rw [behind_cons (q := .firstItem outer) rfl, List.append_assoc]
  cases items with
  | nil => exact behind_cons rfl
  | cons j js =>
    have hitems := behind_items h [] outer ws
    obtain ⟨w, more, hwords, hw⟩ := wordsOfItems_eq_cons j js
    rw [hwords] at hitems ⊢
    exact (behind_firstItem hw).trans hitems

/-! ## Fields -/

theorem behind_fields {k : Option String} {j : Json} {fs : List (Option String × Json)}
    (h : ∀ f ∈ (k, j) :: fs, Lands f.2) (before : List (Option String × Json)) (outer : List Level) (ws : List Token) :
    behind (.key before outer) (wordsOfFields ((k, j) :: fs) ++ .closeObject :: ws) =
      (place (.object (before.reverse ++ (k, j) :: fs)) outer).behind ws := by
  induction fs generalizing k j before with
  | nil =>
    have hj : Lands j := h (k, j) List.mem_cons_self
    show behind _ (.string k :: .colon :: (words j ++ .closeObject :: ws)) = _
    rw [behind_cons (q := .colon before k outer) rfl, behind_cons (q := .value (.object before k :: outer)) rfl, hj,
      behind_cons (q := place (.object ((k, j) :: before).reverse) outer) rfl, List.reverse_cons]
  | cons f fs ih =>
    have hj : Lands j := h (k, j) List.mem_cons_self
    show behind _ (.string k :: .colon :: ((words j ++ .comma :: wordsOfFields (f :: fs)) ++ .closeObject :: ws)) = _
    rw [behind_cons (q := .colon before k outer) rfl, behind_cons (q := .value (.object before k :: outer)) rfl,
      List.append_assoc, hj, List.cons_append, behind_cons (q := .key ((k, j) :: before) outer) rfl,
      ih fun f hf => h f (List.mem_cons_of_mem _ hf), List.reverse_cons, List.append_assoc]
    rfl

theorem lands_object {fields : List (Option String × Json)} (h : ∀ f ∈ fields, Lands f.2) : Lands (.object fields) := by
  intro ws outer
  show behind _ (.openObject :: ((wordsOfFields fields ++ [.closeObject]) ++ ws)) = _
  rw [behind_cons (q := .firstField outer) rfl, List.append_assoc]
  rcases fields with _ | ⟨⟨k, j⟩, fs⟩
  · exact behind_cons rfl
  · -- A field has its key first, with the brace in front of it as with a comma.
    have hfields := behind_fields h [] outer ws
    obtain ⟨more, hwords⟩ : ∃ more, wordsOfFields ((k, j) :: fs) = .string k :: more := by
      cases fs <;> exact ⟨_, rfl⟩
    rw [hwords] at hfields ⊢
    exact hfields

/-! ## Values -/

theorem lands {j : Json} (hj : Decimal j) : Lands j := by
  induction hj with
  | array _ ih => exact lands_array ih
  | object _ ih => exact lands_object ih
  | null | bool | number | string =>
    intro ws outer
    exact behind_cons rfl

end Reader

/-- The text of a value is read as the value. -/
theorem parse?_render {j : Json} (hj : Decimal j) : parse? j.render = some j := by
  have hwords : (words j).foldlM Reader.feed (.value []) = some (.done j) := by
    have hlands := Reader.lands hj [] []
    rw [List.append_nil] at hlands
    exact hlands
  unfold parse? render
  rw [String.toList_ofList, lex_write hj, Option.bind_some, ofTokens?, hwords]

end CallGraph.Json
