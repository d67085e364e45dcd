/-
  CallGraph.Proofs.Spelling — the words of a text that was written are the words of its value.

  The lexer stands between two tokens when a value starts. What it does up to the end of the value depends on the rest
  of the text in one place only: a number goes on as far as it can, so something that ends it has to follow (`Ends`).
  Under that, writing a value and scanning it puts the tokens of the value in front of those that are there
  (`scan_write`), number by number, character by character and item by item.
-/

import CallGraph.Json.Token
import CallGraph.Json.Writer

namespace CallGraph

/-! ## Digits -/

/-- The digits of a number are a zero alone, or start with another digit. -/
theorem toDigits_cases (n : Nat) :
    (n = 0 ∧ Nat.toDigits 10 n = ['0']) ∨ ∃ c ds, Nat.toDigits 10 n = c :: ds ∧ c ≠ '0' := by
  induction n using Nat.strongRecOn with
  | ind n ih =>
    by_cases hlow : n < 10
    · have hone : ∀ d, d < 10 → d ≠ 0 → d.digitChar ≠ '0' := by decide
      rw [Nat.toDigits_of_lt_base hlow]
      by_cases hzero : n = 0
      · subst hzero
        exact .inl ⟨rfl, rfl⟩
      · exact .inr ⟨_, [], rfl, hone n hlow hzero⟩
    · -- The leading digit of a longer number is the one of its tenth.
      rcases ih (n / 10) (by omega) with ⟨hzero, -⟩ | ⟨c, ds, hds, hc⟩
      · omega
      · rw [Nat.toDigits_of_base_le (by decide) (by omega), hds]
        exact .inr ⟨c, _, rfl, hc⟩

namespace Json

/-- The digits of a number make the number again. -/
theorem toDigits_eq_cons {n : Nat} {c : Char} {ds : List Char} (h : Nat.toDigits 10 n = c :: ds) :
    c.isDigit = true ∧ (∀ d ∈ ds, d.isDigit = true) ∧
      ds.foldl (fun w d => 10 * w + digitValue d) (digitValue c) = n := by
  have hdigits : ∀ d ∈ Nat.toDigits 10 n, d.isDigit = true := fun d hd =>
    Nat.isDigit_of_mem_toDigits (by decide) (by decide) hd
  have hvalue : Nat.ofDigitChars 10 (Nat.toDigits 10 n) 0 = n := Nat.ofDigitChars_ten_toDigits
  rw [h] at hdigits hvalue
  refine ⟨hdigits c List.mem_cons_self, fun d hd => hdigits d (List.mem_cons_of_mem _ hd), ?_⟩
  simpa [Nat.ofDigitChars, digitValue] using hvalue

/-! ## Scanning -/

namespace Lexer

/-- The tokens of a text of which the lexer has read the first part. -/
def scan (l : Lexer) (text : List Char) : Option (List Token) := (text.foldlM feed l).bind finish

theorem lex_eq_scan (text : List Char) : lex text = scan {} text := rfl

variable {ts : List Token} {rest : List Char}

theorem scan_cons {l m : Lexer} {c : Char} (h : l.feed c = some m) : scan l (c :: rest) = scan m rest := by
  unfold scan
  rw [List.foldlM_cons, h]
  rfl

theorem scan_push {p q : PartialNumeral} {c : Char} (h : p.push? c = some q) :
    scan ⟨ts, .number p⟩ (c :: rest) = scan ⟨ts, .number q⟩ rest := by
  apply scan_cons
  simp only [feed, h]

/-! ## Numbers -/

/-- What follows does not go on with a number. -/
def Ends (rest : List Char) : Prop := ∀ c ∈ rest.head?, c = ',' ∨ c = ']' ∨ c = '\x7d'

theorem ends_nil : Ends [] := nofun

theorem ends_cons {c : Char} (h : c = ',' ∨ c = ']' ∨ c = '\x7d') : Ends (c :: rest) := by
  intro c' hc'
  cases hc'
  exact h

/-- Digits go into the part of a number that takes them. -/
theorem scan_digits {α : Type} {f : α → PartialNumeral} {g : α → Char → α}
    (hstep : ∀ x c, c.isDigit = true → (f x).push? c = some (f (g x c))) {ds : List Char}
    (hds : ∀ c ∈ ds, c.isDigit = true) (x : α) :
    scan ⟨ts, .number (f x)⟩ (ds ++ rest) = scan ⟨ts, .number (f (ds.foldl g x))⟩ rest := by
  induction ds generalizing x with
  | nil => rfl
  | cons d ds ih =>
    have hd := hstep x d (hds d List.mem_cons_self)
    rw [List.cons_append, scan_push hd, ih fun c hc => hds c (List.mem_cons_of_mem _ hc)]
    rfl

/-- No number that may end goes on with what ends a value. -/
theorem push?_of_finish? {p : PartialNumeral} {n : Numeral} (hp : p.finish? = some n) {c : Char}
    (hc : c = ',' ∨ c = ']' ∨ c = '\x7d') : p.push? c = none := by
  unfold PartialNumeral.finish? at hp
  unfold PartialNumeral.push?
  cases hpart : p.part with
  | zero | whole | fraction | exponent => rcases hc with rfl | rfl | rfl <;> rfl
  | sign | point | mark | markSign =>
    rw [hpart] at hp
    cases hp

/-- A number that may end here does so. -/
theorem scan_ended {p : PartialNumeral} {n : Numeral} (hp : p.finish? = some n) (hrest : Ends rest) :
    scan ⟨ts, .number p⟩ rest = scan { tokens := .number n :: ts } rest := by
  cases rest with
  | nil => simp [scan, finish, hp, emit]
  | cons c rest =>
    have hstop := push?_of_finish? hp (hrest c rfl)
    unfold scan
    rw [List.foldlM_cons, List.foldlM_cons]
    congr 1
    simp only [feed, hstop, hp]
    rfl

/-- A sign as it is written. -/
def signText (negative : Bool) : List Char := if negative then ['-'] else []

/-- The digits behind the point, with the point. -/
def fractionText (ds : List Char) : List Char := if ds.isEmpty then [] else '.' :: ds

/-- An exponent with its mark. -/
def exponentText : Option Int → List Char
  | none => []
  | some (.ofNat e) => 'e' :: Nat.toDigits 10 e
  | some (.negSucc e) => 'e' :: '-' :: Nat.toDigits 10 (e + 1)

theorem write_numeral (n : Numeral) (rest : List Char) :
    n.write rest =
      signText n.negative ++
        (Nat.toDigits 10 n.whole ++ (fractionText n.fraction ++ (exponentText n.exponent ++ rest))) := by
  unfold Numeral.write writeNat signText fractionText exponentText
  cases n.negative <;> cases n.fraction <;> rcases n.exponent with _ | _ | _ <;> simp

/-- The sign and the digits in front of the point. -/
theorem scan_whole (ts : List Token) (negative : Bool) (n : Nat) (rest : List Char) :
    ∃ part, (part = .zero ∨ part = .whole) ∧
      scan { tokens := ts } (signText negative ++ (Nat.toDigits 10 n ++ rest)) =
        scan ⟨ts, .number { part := part, negative := negative, whole := n }⟩ rest := by
  rcases toDigits_cases n with ⟨hn, hzero⟩ | ⟨c, ds, hcons, hc⟩
  · rw [hzero, hn]
    refine ⟨.zero, .inl rfl, ?_⟩
    cases negative <;> rfl
  · obtain ⟨hfirst, hdigits, hvalue⟩ := toDigits_eq_cons hcons
    refine ⟨.whole, .inr rfl, ?_⟩
    have hhead : scan { tokens := ts } (signText negative ++ (c :: ds ++ rest)) =
        scan ⟨ts, .number { part := .whole, negative := negative, whole := digitValue c }⟩ (ds ++ rest) := by
      have hblank : isBlank c = false := by
        simp only [isBlank, Bool.or_eq_false_iff, decide_eq_false_iff_not]
        refine ⟨⟨⟨?_, ?_⟩, ?_⟩, ?_⟩ <;> (rintro rfl; cases hfirst)
      cases negative with
      | false =>
        apply scan_cons
        simp only [feed, start, hblank, hfirst, hc]
        rfl
      | true =>
        show scan _ ('-' :: (c :: (ds ++ rest))) = _
        rw [scan_cons (m := ⟨ts, .number { part := .sign, negative := true }⟩) rfl]
        apply scan_push
        simp only [PartialNumeral.push?, hfirst, hc]
        rfl
    -- One digit more moves the number by one place.
    have hstep : ∀ w c, c.isDigit = true →
        PartialNumeral.push? { part := .whole, negative := negative, whole := w } c =
          some { part := .whole, negative := negative, whole := 10 * w + digitValue c } := by
      intro w c hc
      simp only [PartialNumeral.push?, hc, Nat.mul_comm]
      rfl
    rw [hcons, hhead, scan_digits hstep hdigits, hvalue]

/-- The digits behind the point. -/
theorem scan_fraction {p : PartialNumeral} (hpart : p.part = .zero ∨ p.part = .whole) (hnone : p.fraction = [])
    {ds : List Char} (hds : ∀ c ∈ ds, c.isDigit = true) (ts : List Token) (rest : List Char) :
    ∃ part, (part = .zero ∨ part = .whole ∨ part = .fraction) ∧
      scan ⟨ts, .number p⟩ (fractionText ds ++ rest) =
        scan ⟨ts, .number { p with part := part, fraction := ds.reverse }⟩ rest := by
  cases ds with
  | nil =>
    refine ⟨p.part, hpart.imp_right .inl, ?_⟩
    show scan ⟨ts, .number p⟩ rest = _
    rw [List.reverse_nil, ← hnone]
  | cons d ds =>
    have hd : d.isDigit = true := hds d List.mem_cons_self
    have hpoint : p.push? '.' = some { p with part := .point } := by
      rcases hpart with hpart | hpart <;> (unfold PartialNumeral.push?; rw [hpart]; rfl)
    have hfirst : PartialNumeral.push? { p with part := .point } d =
        some { p with part := .fraction, fraction := [d] } := by
      simp only [PartialNumeral.push?, hd]
      rfl
    have hstep : ∀ cs c, c.isDigit = true →
        PartialNumeral.push? { p with part := .fraction, fraction := cs } c =
          some { p with part := .fraction, fraction := c :: cs } := by
      intro cs c hc
      simp only [PartialNumeral.push?, hc]
      rfl
    refine ⟨.fraction, .inr (.inr rfl), ?_⟩
    show scan _ ('.' :: (d :: (ds ++ rest))) = _
    rw [scan_push hpoint, scan_push hfirst, scan_digits hstep fun c hc => hds c (List.mem_cons_of_mem _ hc)]
    have hfold : ds.foldl (fun cs c => c :: cs) [d] = (d :: ds).reverse := by
      simp
    rw [hfold]

/-- The digits of an exponent. -/
theorem scan_exponentDigits {p : PartialNumeral} (hpart : p.part = .mark ∨ p.part = .markSign) (hzero : p.exponent = 0)
    (n : Nat) :
    scan ⟨ts, .number p⟩ (Nat.toDigits 10 n ++ rest) =
      scan ⟨ts, .number { p with part := .exponent, exponent := n }⟩ rest := by
  obtain ⟨c, ds, hcons⟩ : ∃ c ds, Nat.toDigits 10 n = c :: ds := List.exists_cons_of_ne_nil Nat.toDigits_ne_nil
  obtain ⟨hc, hdigits, hvalue⟩ := toDigits_eq_cons hcons
  have hfirst : p.push? c = some { p with part := .exponent, exponent := digitValue c } := by
    have hsign : c ≠ '+' ∧ c ≠ '-' := by
      constructor <;> (rintro rfl; cases hc)
    unfold PartialNumeral.push? PartialNumeral.exponentDigit?
    rcases hpart with hpart | hpart <;> simp [hpart, hc, hsign, hzero]
  have hstep : ∀ e c, c.isDigit = true →
      PartialNumeral.push? { p with part := .exponent, exponent := e } c =
        some { p with part := .exponent, exponent := 10 * e + digitValue c } := by
    intro e c hc
    simp only [PartialNumeral.push?, PartialNumeral.exponentDigit?, hc, Nat.mul_comm]
    rfl
  rw [hcons, List.cons_append, scan_push hfirst, scan_digits hstep hdigits, hvalue]

/-- The exponent, and the end of the number. -/
theorem scan_exponent {p : PartialNumeral} (hpart : p.part = .zero ∨ p.part = .whole ∨ p.part = .fraction)
    (hzero : p.exponent = 0) (hsign : p.exponentNegative = false) (e : Option Int) (hrest : Ends rest) :
    scan ⟨ts, .number p⟩ (exponentText e ++ rest) =
      scan { tokens := .number ⟨p.negative, p.whole, p.fraction.reverse, e⟩ :: ts } rest := by
  have hmark : p.push? 'e' = some { p with part := .mark } := by
    rcases hpart with hpart | hpart | hpart <;> (unfold PartialNumeral.push?; rw [hpart]; rfl)
  rcases e with _ | e | e
  · apply scan_ended _ hrest
    unfold PartialNumeral.finish?
    rcases hpart with hpart | hpart | hpart <;> rw [hpart]
  · show scan _ ('e' :: (Nat.toDigits 10 e ++ rest)) = _
    rw [scan_push hmark, scan_exponentDigits (p := { p with part := .mark }) (.inl rfl) hzero]
    apply scan_ended _ hrest
    simp [PartialNumeral.finish?, hsign]
  · show scan _ ('e' :: '-' :: (Nat.toDigits 10 (e + 1) ++ rest)) = _
    rw [scan_push hmark, scan_push (q := { p with part := .markSign, exponentNegative := true }) rfl,
      scan_exponentDigits (p := { p with part := .markSign, exponentNegative := true }) (.inr rfl) hzero]
    apply scan_ended _ hrest
    simp [PartialNumeral.finish?, Int.negSucc_eq]

theorem scan_numeral {n : Numeral} (hn : ∀ c ∈ n.fraction, c.isDigit = true) (hrest : Ends rest) :
    scan { tokens := ts } (n.write rest) = scan { tokens := .number n :: ts } rest := by
  rw [write_numeral]
  obtain ⟨part, hpart, hwhole⟩ :=
    scan_whole ts n.negative n.whole (fractionText n.fraction ++ (exponentText n.exponent ++ rest))
  obtain ⟨part', hpart', hfraction⟩ :=
    scan_fraction (p := { part := part, negative := n.negative, whole := n.whole }) hpart rfl hn ts
      (exponentText n.exponent ++ rest)
  rw [hwhole, hfraction, scan_exponent hpart' rfl rfl _ hrest, List.reverse_reverse]

/-! ## Strings -/

theorem hexValue_hexDigit : ∀ d, d < 16 → hexValue (hexDigit d) = some d := by
  decide

/-- Two hexadecimal digits make the low byte of a unit. -/
theorem scan_lowByte (s : PartialString) {n : Nat} (hn : n < 256) :
    scan ⟨ts, .unit s 2 0⟩ (hexDigit (n / 16) :: hexDigit (n % 16) :: rest) =
      scan ⟨ts, .string (s.pushUnit n)⟩ rest := by
  have hhigh : hexValue (hexDigit (n / 16)) = some (n / 16) := hexValue_hexDigit _ (by omega)
  have hlow : hexValue (hexDigit (n % 16)) = some (n % 16) := hexValue_hexDigit _ (by omega)
  have hvalue : (0 * 16 + n / 16) * 16 + n % 16 = n := by omega
  rw [scan_cons (m := ⟨ts, .unit s 1 (0 * 16 + n / 16)⟩) (by simp only [feed, hhigh]; rfl)]
  apply scan_cons
  simp only [feed, hlow, Option.map_some, hvalue]
  rfl

/-- A character that was written is read, whatever was read of the string before. -/
theorem scan_writeChar (s : PartialString) (c : Char) :
    scan ⟨ts, .string s⟩ (writeChar c rest) = scan ⟨ts, .string (s.push c)⟩ rest := by
  unfold writeChar
  split
  · rfl
  · rfl
  · rfl
  · rfl
  · rfl
  · rfl
  · rfl
  · rename_i hquote hslash _ _ _ _ _
    split
    · rename_i hcontrol
      have hc : c.toNat < 32 := hcontrol
      have hunit : s.pushUnit c.toNat = s.push c := by
        unfold PartialString.pushUnit
        rw [if_neg (by omega), if_neg (by omega), Char.ofNat_toNat]
      rw [← hunit]
      exact scan_lowByte s (by omega)
    · rename_i hplain
      apply scan_cons
      simp only [feed, if_neg hquote, if_neg hslash, if_neg hplain]

theorem scan_writeChars (s : PartialString) (cs : List Char) :
    scan ⟨ts, .string s⟩ (cs.foldr writeChar rest) = scan ⟨ts, .string (cs.foldl PartialString.push s)⟩ rest := by
  induction cs generalizing s with
  | nil => rfl
  | cons c cs ih =>
    rw [List.foldr_cons, scan_writeChar, ih]
    rfl

theorem finish_pushAll (cs : List Char) :
    (cs.foldl PartialString.push {}).finish = some (String.ofList cs) := by
  have hpush : ∀ before, cs.foldl PartialString.push { chars := before } = { chars := cs.reverse ++ before } := by
    induction cs with
    | nil => intro before; rfl
    | cons c cs ih =>
      intro before
      rw [List.foldl_cons]
      show cs.foldl PartialString.push { chars := c :: before } = _
      rw [ih, List.reverse_cons, List.append_assoc]
      rfl
  rw [hpush]
  simp [PartialString.finish]

theorem scan_writeString (s : Option String) :
    scan { tokens := ts } (writeString s rest) = scan { tokens := .string s :: ts } rest := by
  cases s with
  | none => rfl
  | some s =>
    show scan _ ('"' :: s.toList.foldr writeChar ('"' :: rest)) = _
    rw [scan_cons (m := ⟨ts, .string {}⟩) rfl, scan_writeChars]
    apply scan_cons
    show some (emit _ (.string (s.toList.foldl PartialString.push {}).finish)) = _
    rw [finish_pushAll, String.ofList_toList]
    rfl

end Lexer

/-! ## Values -/

mutual

/-- The words that spell a value. -/
def words : Json → List Token
  | .null => [.null]
  | .bool b => [.bool b]
  | .number n => [.number n]
  | .string s => [.string s]
  | .array items => .openArray :: (wordsOfItems items ++ [.closeArray])
  | .object fields => .openObject :: (wordsOfFields fields ++ [.closeObject])

def wordsOfItems : List Json → List Token
  | [] => []
  | [j] => words j
  | j :: js => words j ++ .comma :: wordsOfItems js

def wordsOfFields : List (Option String × Json) → List Token
  | [] => []
  | [(k, j)] => .string k :: .colon :: words j
  | (k, j) :: fs => .string k :: .colon :: (words j ++ .comma :: wordsOfFields fs)

end

/-- Behind the points of the numbers stand digits. -/
inductive Decimal : Json → Prop
  | null : Decimal .null
  | bool (b : Bool) : Decimal (.bool b)
  | number {n : Numeral} : (∀ c ∈ n.fraction, c.isDigit = true) → Decimal (.number n)
  | string (s : Option String) : Decimal (.string s)
  | array {items : List Json} : (∀ j ∈ items, Decimal j) → Decimal (.array items)
  | object {fields : List (Option String × Json)} : (∀ f ∈ fields, Decimal f.2) → Decimal (.object fields)

/-- A value that was written is scanned as its words, up to what ends it. -/
def Scans (j : Json) : Prop :=
  ∀ (ts : List Token) (rest : List Char), Lexer.Ends rest →
    Lexer.scan { tokens := ts } (write j rest) = Lexer.scan { tokens := (words j).reverse ++ ts } rest

namespace Lexer

variable {ts : List Token} {rest : List Char}

theorem scan_writeItems {items : List Json} (h : ∀ j ∈ items, Scans j) (ts : List Token) (hrest : Ends rest) :
    scan { tokens := ts } (writeItems items rest) = scan { tokens := (wordsOfItems items).reverse ++ ts } rest := by
  induction items generalizing ts with
  | nil => rfl
  | cons j js ih =>
    have hj := h j List.mem_cons_self
    cases js with
    | nil => exact hj ts rest hrest
    | cons j' js =>
      show scan _ (write j (',' :: writeItems (j' :: js) rest)) = _
      rw [hj ts _ (ends_cons (.inl rfl)), scan_cons (m := { tokens := .comma :: ((words j).reverse ++ ts) }) rfl,
        ih fun j hj => h j (List.mem_cons_of_mem _ hj)]
      simp [wordsOfItems]

theorem scan_writeFields {fields : List (Option String × Json)} (h : ∀ f ∈ fields, Scans f.2) (ts : List Token)
    (hrest : Ends rest) :
    scan { tokens := ts } (writeFields fields rest) = scan { tokens := (wordsOfFields fields).reverse ++ ts } rest := by
  induction fields generalizing ts with
  | nil => rfl
  | cons f fs ih =>
    obtain ⟨k, j⟩ := f
    have hj : Scans j := h (k, j) List.mem_cons_self
    cases fs with
    | nil =>
      show scan _ (writeString k (':' :: write j rest)) = _
      rw [scan_writeString, scan_cons (m := { tokens := .colon :: .string k :: ts }) rfl, hj _ rest hrest]
      simp [wordsOfFields]
    | cons f' fs =>
      show scan _ (writeString k (':' :: write j (',' :: writeFields (f' :: fs) rest))) = _
      rw [scan_writeString, scan_cons (m := { tokens := .colon :: .string k :: ts }) rfl, hj _ _ (ends_cons (.inl rfl)),
        scan_cons (m := { tokens := .comma :: ((words j).reverse ++ .colon :: .string k :: ts) }) rfl,
        ih fun f hf => h f (List.mem_cons_of_mem _ hf)]
      simp [wordsOfFields]

theorem scan_write {j : Json} (hj : Decimal j) : Scans j := by
  induction hj with
  | null => intro ts rest _; rfl
  | bool b => intro ts rest _; cases b <;> rfl
  | number hn => intro ts rest hrest; exact scan_numeral hn hrest
  | string s => intro ts rest _; exact scan_writeString s
  | @array items _ ih =>
    intro ts rest _
    show scan _ ('[' :: writeItems items (']' :: rest)) = _
    rw [scan_cons (m := { tokens := .openArray :: ts }) rfl, scan_writeItems ih _ (ends_cons (.inr (.inl rfl))),
      scan_cons (m := { tokens := .closeArray :: ((wordsOfItems items).reverse ++ .openArray :: ts) }) rfl]
    simp [words]
  | @object fields _ ih =>
    intro ts rest _
    show scan _ ('\x7b' :: writeFields fields ('\x7d' :: rest)) = _
    rw [scan_cons (m := { tokens := .openObject :: ts }) rfl, scan_writeFields ih _ (ends_cons (.inr (.inr rfl))),
      scan_cons (m := { tokens := .closeObject :: ((wordsOfFields fields).reverse ++ .openObject :: ts) }) rfl]
    simp [words]

end Lexer

/-- The text of a value has the words of the value. -/
theorem lex_write {j : Json} (hj : Decimal j) : lex (write j []) = some (words j) := by
  rw [Lexer.lex_eq_scan, Lexer.scan_write hj [] [] Lexer.ends_nil, List.append_nil]
  exact congrArg some (List.reverse_reverse _)

end Json
end CallGraph
