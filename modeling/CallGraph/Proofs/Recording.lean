/-
  CallGraph.Proofs.Recording — a trace that was written is read back.

  Each kind of value of a trace has a decoder that undoes its encoder (`Recovers`): the words and numbers, the absent
  values and lists of such, and the records, of which every field is found under its name (`record?_record`). An event
  is told by its tag and held whole before it is read, which its numbers allow as none of them has more than 64 bits
  (`isFinite_of_lt`). So a trace comes back from its text (`written_trace_read_back`).
-/

import CallGraph.Proofs.Reading
import CallGraph.Trace.Decode
import CallGraph.Trace.Encode

namespace CallGraph

namespace Json

variable {α : Type} {decode : Json → Option α} {encode : α → Json}

/-- What is encoded has the text of a value, from which it is decoded again. -/
structure Recovers (decode : Json → Option α) (encode : α → Json) : Prop where
  decimal : ∀ x, Decimal (encode x)
  decodes : ∀ x, decode (encode x) = some x

/-! ## Words and numbers -/

theorem decimal_ofNat (n : Nat) : Decimal (.ofNat n) := .number nofun

theorem decimal_ofInt (i : Int) : Decimal (.ofInt i) := .number nofun

theorem nat?_ofNat {bound n : Nat} (h : n < bound) : nat? bound (.ofNat n) = some n := if_pos h

theorem recovers_uint32 : Recovers uint32? fun n => .ofNat n.toNat := by
  refine ⟨fun n => decimal_ofNat _, fun n => ?_⟩
  unfold uint32?
  rw [nat?_ofNat n.toNat_lt, Option.map_some, UInt32.ofNat_toNat]

theorem recovers_uint64 : Recovers uint64? fun n => .ofNat n.toNat := by
  refine ⟨fun n => decimal_ofNat _, fun n => ?_⟩
  unfold uint64?
  rw [nat?_ofNat n.toNat_lt, Option.map_some, UInt64.ofNat_toNat]

theorem recovers_addr : Recovers Addr.ofJson? Addr.toJson := by
  refine ⟨fun a => decimal_ofNat _, fun a => ?_⟩
  unfold Addr.ofJson? Addr.toJson
  rw [recovers_uint64.decodes, Option.map_some]

theorem int?_ofInt (i : Int) : (Numeral.ofInt i).int? = some i := by
  unfold Numeral.ofInt
  by_cases hneg : i < 0
  · have hne : i.natAbs ≠ 0 := by omega
    have hback : -(i.natAbs : Int) = i := by omega
    rw [decide_eq_true hneg]
    show (if i.natAbs = 0 then none else some (-(i.natAbs : Int))) = some i
    rw [if_neg hne, hback]
  · have hback : (i.natAbs : Int) = i := by omega
    rw [decide_eq_false hneg]
    exact congrArg some hback

theorem recovers_int32 : Recovers int32? fun i => .ofInt i.toInt := by
  refine ⟨fun i => decimal_ofInt _, fun i => ?_⟩
  have hrange : Int32.minValue.toInt ≤ i.toInt ∧ i.toInt ≤ Int32.maxValue.toInt := by
    have hlow := i.le_toInt
    have hhigh := i.toInt_lt
    have hmin : Int32.minValue.toInt = -2147483648 := rfl
    have hmax : Int32.maxValue.toInt = 2147483647 := rfl
    omega
  unfold int32? ofInt
  simp only [int?_ofInt, if_pos hrange, Int32.ofInt_toInt]

theorem recovers_bool : Recovers bool? .bool := ⟨.bool, fun _ => rfl⟩

theorem recovers_text : Recovers text? .ofString := ⟨fun s => .string (some s), fun _ => rfl⟩

theorem recovers_choice {names : List (String × α)} {name : α → String} (h : ∀ x, names.lookup (name x) = some x) :
    Recovers (choice? names) fun x => .ofString (name x) :=
  ⟨fun x => .string (some (name x)), h⟩

theorem recovers_exitKind : Recovers (choice? ExitKind.names) fun k => .ofString k.name :=
  recovers_choice fun k => by cases k <;> rfl

theorem recovers_section : Recovers (choice? SectionKind.names) fun k => .ofString k.name :=
  recovers_choice fun k => by cases k <;> rfl

theorem recovers_tailCalls : Recovers (choice? TailCallRule.names) fun r => .ofString r.name :=
  recovers_choice fun r => by cases r <;> rfl

/-! ## Absent values and lists -/

theorem nullable?_of_ne {j : Json} (hj : j ≠ .null) : nullable? decode j = (decode j).map some := by
  cases j
  case null => exact absurd rfl hj
  all_goals rfl

theorem Recovers.nullable (h : Recovers decode encode) (hpresent : ∀ x, encode x ≠ .null) :
    Recovers (nullable? decode) (.ofOption encode) := by
  refine ⟨fun o => ?_, fun o => ?_⟩
  · cases o with
    | none => exact .null
    | some x => exact h.decimal x
  · cases o with
    | none => rfl
    | some x =>
      show nullable? decode (encode x) = _
      rw [nullable?_of_ne (hpresent x), h.decodes, Option.map_some]

/-- The answers to the members of a list, where there is one to each. -/
theorem mapM_map_eq_some {α β γ : Type} {f : β → Option γ} {g : α → β} {h : α → γ} {xs : List α}
    (hall : ∀ x ∈ xs, f (g x) = some (h x)) : (xs.map g).mapM f = some (xs.map h) := by
  induction xs with
  | nil => rfl
  | cons x xs ih =>
    rw [List.map_cons, List.mapM_cons, hall x List.mem_cons_self, ih fun y hy => hall y (List.mem_cons_of_mem _ hy)]
    rfl

theorem Recovers.list (h : Recovers decode encode) : Recovers (list? decode) (.ofList encode) := by
  refine ⟨fun xs => ?_, fun xs => ?_⟩
  · refine .array fun j hj => ?_
    obtain ⟨x, -, rfl⟩ := List.mem_map.mp hj
    exact h.decimal x
  · show (xs.map encode).mapM decode = some xs
    rw [mapM_map_eq_some (h := id) fun x _ => h.decodes x, List.map_id]

/-! ## Records -/

/-- The fields of an object with the given ones. -/
def keyed (fields : List (String × Json)) : List (Option String × Json) := fields.map fun f => (some f.1, f.2)

theorem decimal_record {fields : List (String × Json)} (h : ∀ f ∈ fields, Decimal f.2) : Decimal (.record fields) := by
  refine .object fun f hf => ?_
  obtain ⟨f', hf', rfl⟩ := List.mem_map.mp hf
  exact h f' hf'

@[simp] theorem keyed_cons (f : String × Json) (fields : List (String × Json)) :
    keyed (f :: fields) = (some f.1, f.2) :: keyed fields := rfl

/-- Fields of other names do not count. -/
theorem filter_keyed_eq_nil {fields : List (String × Json)} {name : String} (hname : name ∉ fields.map Prod.fst) :
    (keyed fields).filter (fun g => g.1 = some name) = [] := by
  rw [List.filter_eq_nil_iff]
  intro g hg hsame
  obtain ⟨f, hf, rfl⟩ := List.mem_map.mp hg
  have hf1 : f.1 = name := by simpa using hsame
  exact hname (hf1 ▸ List.mem_map_of_mem hf)

theorem field?_keyed {fields : List (String × Json)} (hnodup : (fields.map Prod.fst).Nodup) {f : String × Json}
    (hf : f ∈ fields) : field? (keyed fields) f.1 = some (some f.2) := by
  have honly : (keyed fields).filter (fun g => g.1 = some f.1) = [(some f.1, f.2)] := by
    induction fields with
    | nil => cases hf
    | cons g fields ih =>
      obtain ⟨hg, hnodup⟩ := List.nodup_cons.mp hnodup
      rcases List.mem_cons.mp hf with rfl | hf
      · rw [keyed_cons, List.filter_cons_of_pos (by simp), filter_keyed_eq_nil hg]
      · have hother : g.1 ≠ f.1 := by
          intro hsame
          exact hg (hsame ▸ List.mem_map_of_mem hf)
        rw [keyed_cons, List.filter_cons_of_neg (by simpa using hother), ih hnodup hf]
  unfold field?
  rw [honly]

/-- The fields of a record are found under their names. -/
theorem fieldsOf?_keyed {fields : List (String × Json)} (hnodup : (fields.map Prod.fst).Nodup) :
    fieldsOf? (fields.map Prod.fst) (keyed fields) = some (fields.map fun f => some f.2) := by
  have hkeys : (keyed fields).all (·.1.isSome) = true := by simp [keyed]
  unfold fieldsOf?
  rw [if_pos hkeys]
  exact mapM_map_eq_some fun f hf => field?_keyed hnodup hf

theorem record?_record {fields : List (String × Json)} (hnodup : (fields.map Prod.fst).Nodup) :
    record? (fields.map Prod.fst) (.record fields) = some (fields.map fun f => some f.2) :=
  fieldsOf?_keyed hnodup

end Json

open Json

theorem recovers_exit : Recovers Exit.ofJson? Exit.toJson := by
  refine ⟨fun e => decimal_record ?_, fun e => ?_⟩
  · simp [recovers_exitKind.decimal, decimal_ofNat]
  · have hfields : record? Format.exitFields e.toJson = _ := record?_record (by simp)
    unfold Exit.ofJson?
    rw [hfields]
    simp [required, withDefault, recovers_exitKind.decodes, recovers_uint32.decodes]

theorem recovers_config : Recovers Config.ofJson? Config.toJson := by
  have hdepth := recovers_uint64.nullable fun _ => nofun
  have hskip := recovers_text.list
  refine ⟨fun c => decimal_record ?_, fun c => ?_⟩
  · simp [hdepth.decimal, hskip.decimal, recovers_tailCalls.decimal, decimal_ofNat]
  · have hfields : record? Format.configFields c.toJson = _ := record?_record (by simp)
    unfold Config.ofJson?
    rw [hfields]
    simp [withDefault, hdepth.decodes, hskip.decodes, recovers_tailCalls.decodes, recovers_uint64.decodes]

theorem recovers_function : Recovers FunctionDecl.ofJson? FunctionDecl.toJson := by
  refine ⟨fun f => decimal_record ?_, fun f => ?_⟩
  · simp [recovers_text.decimal, recovers_bool.decimal, decimal_ofNat]
  · have hfields : record? Format.functionFields f.toJson = _ := record?_record (by simp)
    unfold FunctionDecl.ofJson?
    rw [hfields]
    simp [required, withDefault, recovers_text.decodes, recovers_bool.decodes, recovers_uint32.decodes]

theorem recovers_block : Recovers BlockDecl.ofJson? BlockDecl.toJson := by
  have hobject := recovers_uint32.nullable fun _ => nofun
  have hexits := recovers_exit.list
  refine ⟨fun b => decimal_record ?_, fun b => ?_⟩
  · simp [hobject.decimal, hexits.decimal, recovers_addr.decimal, recovers_section.decimal, recovers_bool.decimal,
      decimal_ofNat]
  · have hfields : record? Format.blockFields b.toJson = _ := record?_record (by simp)
    unfold BlockDecl.ofJson?
    rw [hfields]
    simp [required, withDefault, hobject.decodes, hexits.decodes, recovers_addr.decodes, recovers_section.decodes,
      recovers_bool.decodes, recovers_uint32.decodes]

/-! ## Events -/

namespace Numeral

theorem le_ofDigitChars (ds : List Char) (n : Nat) : n ≤ Nat.ofDigitChars 10 ds n := by
  induction ds generalizing n with
  | nil => exact Nat.le_refl n
  | cons d ds ih => exact Nat.le_trans (by omega) (ih (10 * n + (d.toNat - '0'.toNat)))

/-- All digits are leading ones if their number fits into 64 bits. -/
theorem leading_of_lt {ds : List Char} {lead : Nat} (h : Nat.ofDigitChars 10 ds lead < UInt64.size) (taken : Nat) :
    leading lead taken ds = (Nat.ofDigitChars 10 ds lead, taken + ds.length) := by
  induction ds generalizing lead taken with
  | nil => rfl
  | cons d ds ih =>
    have hcomm : lead * 10 + (d.toNat - '0'.toNat) = 10 * lead + (d.toNat - '0'.toNat) := by omega
    have hrest : Nat.ofDigitChars 10 ds (10 * lead + (d.toNat - '0'.toNat)) < UInt64.size := h
    have hnext := Nat.lt_of_le_of_lt (le_ofDigitChars ds _) hrest
    unfold leading
    simp only [hcomm, if_pos hnext]
    rw [ih hrest, List.length_cons, Nat.add_assoc, Nat.add_comm 1]
    rfl

theorem productFinite_of_nonpos (lead : Nat) {scale : Int} (h : scale ≤ 0) : productFinite lead scale = true := by
  unfold productFinite
  rw [decide_eq_true h, Bool.or_true, Bool.true_or]

/-- An integer of 64 bits has a finite double. -/
theorem isFinite_of_lt {negative : Bool} {n : Nat} (h : n < UInt64.size) :
    isFinite { negative := negative, whole := n } = true := by
  have hvalue : Nat.ofDigitChars 10 (Nat.toDigits 10 n) 0 = n := Nat.ofDigitChars_ten_toDigits
  have hlead : leading 0 0 (Nat.toDigits 10 n) = _ := leading_of_lt (by rw [hvalue]; exact h) 0
  unfold isFinite
  simp only [hlead, leading]
  apply productFinite_of_nonpos
  simp

end Numeral

section

variable (levels : Nat)

theorem canHold_uint64 (n : UInt64) : canHold levels (.ofNat n.toNat) = true := by
  unfold ofNat Numeral.ofNat canHold
  exact Numeral.isFinite_of_lt n.toNat_lt

theorem canHold_uint32 (n : UInt32) : canHold levels (.ofNat n.toNat) = true := by
  unfold ofNat Numeral.ofNat canHold
  exact Numeral.isFinite_of_lt (Nat.lt_trans n.toNat_lt (by decide))

theorem canHold_int32 (i : Int32) : canHold levels (.ofInt i.toInt) = true := by
  unfold ofInt Numeral.ofInt canHold
  apply Numeral.isFinite_of_lt
  have hlow := i.le_toInt
  have hhigh := i.toInt_lt
  have hsize : UInt64.size = 18446744073709551616 := rfl
  omega

theorem canHold_addr (a : Addr) : canHold levels a.toJson = true := canHold_uint64 levels a.val

theorem canHold_ofOption (o : Option UInt64) : canHold levels (.ofOption (fun n => .ofNat n.toNat) o) = true := by
  cases o with
  | none => simp [ofOption, canHold]
  | some n => exact canHold_uint64 levels n

end

theorem canHoldFields_keyed {levels : Nat} {fields : List (String × Json)}
    (h : ∀ f ∈ fields, canHold levels f.2 = true) : canHoldFields levels (keyed fields) = true := by
  induction fields with
  | nil => rfl
  | cons f fields ih =>
    rw [keyed_cons, canHoldFields, h f List.mem_cons_self, ih fun g hg => h g (List.mem_cons_of_mem _ hg)]
    rfl

/-- An event with its tag in front is read by its tag from the other fields. -/
theorem Event.ofJson?_tagged {tag : String} {fields : List (String × Json)}
    (htag : Format.eventTag ∉ fields.map Prod.fst) (hhold : ∀ f ∈ fields, canHold Format.eventLevels f.2 = true) :
    Event.ofJson? (.record ((Format.eventTag, .ofString tag) :: fields)) =
      Event.ofFields? tag fun names => fieldsOf? names (keyed fields) := by
  have hfield : field? ((some Format.eventTag, .ofString tag) :: keyed fields) Format.eventTag =
      some (some (.ofString tag)) := by
    unfold field?
    rw [List.filter_cons_of_pos (by simp), filter_keyed_eq_nil htag]
  have hothers : ((some Format.eventTag, .ofString tag) :: keyed fields).filter (fun f => f.1 ≠ some Format.eventTag) =
      keyed fields := by
    rw [List.filter_cons_of_neg (by simp), List.filter_eq_self]
    intro g hg
    obtain ⟨f, hf, rfl⟩ := List.mem_map.mp hg
    have hne : f.1 ≠ Format.eventTag := fun hsame => htag (hsame ▸ List.mem_map_of_mem hf)
    simpa using hne
  have hrecord : Json.record ((Format.eventTag, .ofString tag) :: fields) =
      .object ((some Format.eventTag, .ofString tag) :: keyed fields) := rfl
  rw [hrecord, Event.ofJson?, hfield]
  show (if canHoldFields Format.eventLevels (List.filter _ _) = true then _ else _) = _
  rw [hothers, if_pos (canHoldFields_keyed hhold)]

theorem recovers_event : Recovers Event.ofJson? Event.toJson := by
  have hexit := recovers_uint64.nullable fun _ => nofun
  refine ⟨fun e => ?_, fun e => ?_⟩
  · cases e <;> apply decimal_record <;>
      simp [recovers_text.decimal, recovers_addr.decimal, hexit.decimal, decimal_ofNat, decimal_ofInt]
  · cases e with
    | block tid sp index exit =>
      have hfields : fieldsOf? Format.blockEventFields (keyed [("tid", .ofNat tid.toNat), ("sp", sp.toJson),
          ("block", .ofNat index.toNat), ("exit", .ofOption (fun n => .ofNat n.toNat) exit)]) = _ :=
        fieldsOf?_keyed (by simp)
      refine (Event.ofJson?_tagged (by simp [Format.eventTag])
        (by simp [canHold_uint32, canHold_addr, canHold_ofOption])).trans ?_
      simp only [Event.ofFields?, hfields]
      simp [required, withDefault, recovers_uint32.decodes, recovers_addr.decodes, hexit.decodes]
    | signal tid sig | signalReturn tid sig =>
      have hfields : fieldsOf? Format.signalEventFields (keyed [("tid", .ofNat tid.toNat), ("sig", .ofInt sig.toInt)]) =
          _ := fieldsOf?_keyed (by simp)
      refine (Event.ofJson?_tagged (by simp [Format.eventTag]) (by simp [canHold_uint32, canHold_int32])).trans ?_
      simp only [Event.ofFields?, hfields]
      simp [required, recovers_uint32.decodes, recovers_int32.decodes]
    | discard index =>
      have hfields : fieldsOf? Format.discardEventFields (keyed [("block", .ofNat index.toNat)]) = _ :=
        fieldsOf?_keyed (by simp)
      refine (Event.ofJson?_tagged (by simp [Format.eventTag]) (by simp [canHold_uint32])).trans ?_
      simp only [Event.ofFields?, hfields]
      simp [required, recovers_uint32.decodes]

/-! ## Traces -/

theorem recovers_trace : Recovers Trace.ofJson? Trace.toJson := by
  have hobjects := recovers_text.list
  have hfunctions := recovers_function.list
  have hblocks := recovers_block.list
  have hevents := recovers_event.list
  refine ⟨fun t => decimal_record ?_, fun t => ?_⟩
  · simp [recovers_config.decimal, hobjects.decimal, hfunctions.decimal, hblocks.decimal, hevents.decimal]
  · have hfields : record? Format.traceFields t.toJson = _ := record?_record (by simp)
    unfold Trace.ofJson?
    rw [hfields]
    simp [withDefault, recovers_config.decodes, hobjects.decodes, hfunctions.decodes, hblocks.decodes, hevents.decodes]

namespace Trace

/-- The text of a trace has the value in which every field of the trace is spelled out, and from that value the trace is
read back. So a text that is accepted says no more than the text of its trace. -/
theorem written_trace_read_back :
    (∀ t : Trace, Json.parse? t.render = some t.toJson ∧ ofJson? t.toJson = some t ∧ parse? t.render = some t) ∧
      ∀ text : String, (parse? text).bind (fun t => parse? t.render) = parse? text := by
  have hvalue : ∀ t : Trace, Json.parse? t.render = some t.toJson := fun t => parse?_render (recovers_trace.decimal t)
  have hback : ∀ t : Trace, parse? t.render = some t := by
    intro t
    unfold parse?
    rw [hvalue, Option.bind_some, recovers_trace.decodes]
  refine ⟨fun t => ⟨hvalue t, recovers_trace.decodes t, hback t⟩, fun text => ?_⟩
  cases parse? text with
  | none => rfl
  | some t => rw [Option.bind_some, hback]

end Trace
end CallGraph
