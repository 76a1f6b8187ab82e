/-
# JSON text

A printer and a parser over characters that keep what `JsonText` asks for.  The library's own are
not part of the repository; these are an instance, which prints as it does but for doubles that are
no whole numbers and for control characters.  A fraction is written with a stroke, so that it is
exact.

`print` and `parse` are written over lists of characters, one function for each production of the
grammar: strings, numbers, arrays, objects.  White space is skipped where a token may begin.  The
recursion of `parseValue` is on a bound for the depth, which the length of the text supplies.

The main results are that a value survives printing and parsing, whatever the text goes on with, and
that no printed text is the beginning of another one: a file cut short does not parse.
`JsonText.chars` packages them as the instance that the persistence of the cost model and the
exchange with the advisor are run on.
-/
import Mathlib.Data.Rat.Defs
import FatpBalancer.JsonLite

universe u v

namespace FatpBalancer.JsonChars

/-! ## Printing

Separators carry no white space.  A double that is a whole number is printed as that integer, and
any other as numerator, stroke and denominator. -/

/-- A quote and a backslash have a backslash before them. -/
def printChars : List Char → List Char
  | [] => ['"']
  | c :: cs => if c = '"' ∨ c = '\\' then '\\' :: c :: printChars cs else c :: printChars cs

/-- A string between quotes. -/
def printString (s : String) : List Char := '"' :: printChars s.toList

/-- Decimal digits, after a minus sign for a negative number. -/
def printInt : Int → List Char
  | .ofNat n => Nat.toDigits 10 n
  | .negSucc n => '-' :: Nat.toDigits 10 (n + 1)

/-- A whole number as an integer, any other fraction exactly. -/
def printDouble (d : Rat) : List Char :=
  match DoubleOps.wholeInt64 d with
  | some n => printInt n
  | none => printInt d.num ++ '/' :: Nat.toDigits 10 d.den

section

variable (close : Char)

/-- What comes after an element. -/
def printTail : List (List Char) → List Char
  | [] => [close]
  | t :: ts => ',' :: (t ++ printTail ts)

/-- The elements with commas between them and the closing bracket at the end. -/
def printList : List (List Char) → List Char
  | [] => [close]
  | t :: ts => t ++ printTail close ts

end

mutual

/-- Only the printer of a value recurses; arrays and objects are lists of printed elements. -/
def print : JsonValue Rat → List Char
  | .null => "null".toList
  | .bool true => "true".toList
  | .bool false => "false".toList
  | .int64 n => printInt n
  | .double d => printDouble d
  | .string s => printString s
  | .array xs => '[' :: printList ']' (printArray xs)
  | .object fs => '\x7b' :: printList '\x7d' (printObject fs)

def printArray : JsonArray Rat → List (List Char)
  | [] => []
  | v :: vs => print v :: printArray vs

def printObject : JsonObject Rat → List (List Char)
  | [] => []
  | (k, v) :: fs => (printString k ++ ':' :: print v) :: printObject fs

end

/-! ## Parsing

Each parser answers what it has read and the rest of the text, or `none`.  The recursion of the
grammar is cut at `parseList`, which takes the parser of an element as an argument. -/

/-- The text from its first character that is no white space. -/
def skipWs (text : List Char) : List Char := text.dropWhile Char.isWhitespace

/-- As many digits as there are, and at least one. -/
def parseNat (text : List Char) : Option (Nat × List Char) :=
  match text.takeWhile Char.isDigit with
  | [] => none
  | digits => some (Nat.ofDigitChars 10 digits 0, text.dropWhile Char.isDigit)

/-- An optional minus sign and digits. -/
def parseInt : List Char → Option (Int × List Char)
  | '-' :: text => (parseNat text).map fun p => (-(p.1 : Int), p.2)
  | text => (parseNat text).map fun p => ((p.1 : Int), p.2)

/-- An integer, or a fraction when a stroke follows. -/
def parseNumber (text : List Char) : Option (JsonValue Rat × List Char) :=
  match parseInt text with
  | none => none
  | some (num, '/' :: rest) => (parseNat rest).map fun p => (.double (mkRat num p.1), p.2)
  | some (n, rest) => some (.int64 n, rest)

/-- Up to the closing quote; a backslash makes the next character a plain one. -/
def parseChars : List Char → Option (List Char × List Char)
  | [] => none
  | '"' :: rest => some ([], rest)
  | '\\' :: c :: rest => (parseChars rest).map fun p => (c :: p.1, p.2)
  | c :: rest => (parseChars rest).map fun p => (c :: p.1, p.2)

section

variable {β : Type u} (item : List Char → Option (β × List Char)) (close : Char)

/-- What comes after an element. -/
def parseTail : Nat → List Char → Option (List β × List Char)
  | 0, _ => none
  | n + 1, text =>
      match skipWs text with
      | [] => none
      | c :: rest =>
          if c = close then some ([], rest)
          else if c = ',' then
            (item rest).bind fun p => (parseTail n p.2).map fun q => (p.1 :: q.1, q.2)
          else none

/-- The elements up to the closing bracket, the opening one being read already. -/
def parseList (n : Nat) (text : List Char) : Option (List β × List Char) :=
  match skipWs text with
  | [] => none
  | c :: rest =>
      if c = close then some ([], rest)
      else (item (c :: rest)).bind fun p => (parseTail item close n p.2).map fun q =>
        (p.1 :: q.1, q.2)

end

/-- A name, a colon and a value. -/
def parseMember (value : List Char → Option (JsonValue Rat × List Char)) (text : List Char) :
    Option ((String × JsonValue Rat) × List Char) :=
  match skipWs text with
  | '"' :: rest =>
      (parseChars rest).bind fun k =>
        match skipWs k.2 with
        | ':' :: rest => (value rest).map fun v => ((String.ofList k.1, v.1), v.2)
        | _ => none
  | _ => none

/-- The bound goes down with each level of nesting. -/
def parseValue : Nat → List Char → Option (JsonValue Rat × List Char)
  | 0, _ => none
  | n + 1, text =>
      match skipWs text with
      | 'n' :: 'u' :: 'l' :: 'l' :: rest => some (.null, rest)
      | 't' :: 'r' :: 'u' :: 'e' :: rest => some (.bool true, rest)
      | 'f' :: 'a' :: 'l' :: 's' :: 'e' :: rest => some (.bool false, rest)
      | '"' :: rest => (parseChars rest).map fun p => (.string (String.ofList p.1), p.2)
      | '[' :: rest => (parseList (parseValue n) ']' n rest).map fun p => (.array p.1, p.2)
      | '\x7b' :: rest =>
          (parseList (parseMember (parseValue n)) '\x7d' n rest).map fun p => (.object p.1, p.2)
      | text => parseNumber text

/-- A value and nothing after it but white space. -/
def parse (text : List Char) : Option (JsonValue Rat) :=
  match parseValue text.length text with
  | some (v, rest) => if skipWs rest = [] then some v else none
  | none => none

/-! ## What was printed is parsed

One lemma for each pair of a printer and a parser, in the order of the definitions.  Numbers are the
only tokens that do not say themselves where they end, so their lemmas ask for a text that goes on
with something that is no digit. -/

/-- A string is read back up to its own closing quote. -/
theorem parseChars_printChars (cs rest : List Char) :
    parseChars (printChars cs ++ rest) = some (cs, rest) := by
  induction cs with
  | nil => rfl
  | cons c cs ih =>
      rw [printChars]
      split
      · simp only [List.cons_append, parseChars, ih, Option.map_some]
      · next hplain =>
          rw [not_or] at hplain
          rw [List.cons_append, parseChars, ih, Option.map_some]
          · exact hplain.1
          · intro _ _ h
            exact absurd h hplain.2

/-- What may come after a number. -/
def Stop (rest : List Char) : Prop := ∀ c ∈ rest.head?, c.isDigit = false ∧ c ≠ '/'

theorem parseNat_toDigits (n : Nat) {rest : List Char} (h : ∀ c ∈ rest.head?, c.isDigit = false) :
    parseNat (Nat.toDigits 10 n ++ rest) = some (n, rest) := by
  have hdigits : ∀ c ∈ Nat.toDigits 10 n, c.isDigit = true := fun c hc =>
    Nat.isDigit_of_mem_toDigits (by decide) (by decide) hc
  have hrest : rest.takeWhile Char.isDigit = [] ∧ rest.dropWhile Char.isDigit = rest := by
    cases rest with
    | nil => exact ⟨rfl, rfl⟩
    | cons c cs =>
        have hc := h c rfl
        exact ⟨List.takeWhile_cons_of_neg (by simp [hc]), List.dropWhile_cons_of_neg (by simp [hc])⟩
  rw [parseNat, List.takeWhile_append_of_pos hdigits, List.dropWhile_append_of_pos hdigits,
    hrest.1, hrest.2, List.append_nil]
  split
  · next hnil => exact absurd hnil Nat.toDigits_ne_nil
  · rw [Nat.ofDigitChars_ten_toDigits]

theorem parseInt_printInt (n : Int) {rest : List Char} (h : ∀ c ∈ rest.head?, c.isDigit = false) :
    parseInt (printInt n ++ rest) = some (n, rest) := by
  cases n with
  | ofNat n =>
      rw [printInt, parseInt, parseNat_toDigits n h]
      · rfl
      · intro text htext
        obtain ⟨c, cs, hcs⟩ := List.exists_cons_of_ne_nil (Nat.toDigits_ne_nil (n := n) (b := 10))
        have hc : c.isDigit = true :=
          Nat.isDigit_of_mem_toDigits (by decide) (by decide) (hcs ▸ List.mem_cons_self)
        rw [hcs, List.cons_append] at htext
        obtain ⟨rfl, -⟩ := List.cons.inj htext
        cases hc
  | negSucc n =>
      rw [printInt, List.cons_append, parseInt, parseNat_toDigits (n + 1) h]
      rfl

theorem parseNumber_printInt (n : Int) {rest : List Char} (h : Stop rest) :
    parseNumber (printInt n ++ rest) = some (.int64 n, rest) := by
  rw [parseNumber, parseInt_printInt n fun c hc => (h c hc).1]
  split
  · next heq => cases heq
  · next heq =>
      obtain ⟨-, rfl⟩ := Prod.mk.inj (Option.some.inj heq)
      exact absurd rfl (h '/' rfl).2
  · next heq =>
      obtain ⟨rfl, rfl⟩ := Prod.mk.inj (Option.some.inj heq)
      rfl

/-- A whole double comes back as the integer it was printed as, any other as itself. -/
theorem parseNumber_printDouble (d : Rat) {rest : List Char} (h : Stop rest) :
    parseNumber (printDouble d ++ rest) = some (JsonValue.readBackDouble d, rest) := by
  rw [printDouble, JsonValue.readBackDouble]
  cases DoubleOps.wholeInt64 d with
  | some n => exact parseNumber_printInt n h
  | none =>
      simp only [List.append_assoc, List.cons_append]
      rw [parseNumber, parseInt_printInt]
      · simp only [parseNat_toDigits d.den fun c hc => (h c hc).1, Option.map_some,
          Rat.mkRat_self]
      · intro c hc
        cases hc
        rfl

theorem skipWs_cons {c : Char} (h : c.isWhitespace = false) (cs : List Char) :
    skipWs (c :: cs) = c :: cs :=
  List.dropWhile_cons_of_neg (by simp [h])

section

variable {α : Type u} {β : Type v} {item : List Char → Option (β × List Char)} {close : Char}
  {text : α → List Char} {f : α → β} {n : Nat}

/-- What ends an array or an object. -/
def Closes (close : Char) : Prop := close = ']' ∨ close = '\x7d'

theorem Closes.isWhitespace (h : Closes close) : close.isWhitespace = false := by
  rcases h with rfl | rfl <;> rfl

theorem Closes.ne_comma (h : Closes close) : close ≠ ',' := by
  rcases h with rfl | rfl <;> decide

theorem stop_printTail (h : Closes close) (ts : List (List Char)) (rest : List Char) :
    Stop (printTail close ts ++ rest) := by
  intro c hc
  cases ts with
  | nil =>
      cases hc
      rcases h with rfl | rfl <;> decide
  | cons t ts =>
      cases hc
      decide

theorem parseTail_printTail (hclose : Closes close) {xs : List α} (hn : xs.length < n)
    (hitem : ∀ x ∈ xs, ∀ rest, Stop rest → item (text x ++ rest) = some (f x, rest))
    (rest : List Char) :
    parseTail item close n (printTail close (xs.map text) ++ rest) = some (xs.map f, rest) := by
  induction xs generalizing n with
  | nil =>
      obtain ⟨n, rfl⟩ := Nat.exists_eq_succ_of_ne_zero (Nat.ne_zero_of_lt hn)
      simp [printTail, parseTail, skipWs_cons hclose.isWhitespace]
  | cons x xs ih =>
      obtain ⟨n, rfl⟩ := Nat.exists_eq_succ_of_ne_zero (Nat.ne_zero_of_lt hn)
      have htail := ih (Nat.lt_of_succ_lt_succ hn) fun y hy => hitem y (List.mem_cons_of_mem _ hy)
      have hhead := hitem x List.mem_cons_self _ (stop_printTail hclose (xs.map text) rest)
      simp only [List.map_cons, printTail, List.cons_append, List.append_assoc, parseTail,
        skipWs_cons (c := ',') rfl, if_neg hclose.ne_comma.symm, if_true, hhead, Option.bind_some,
        htail, Option.map_some]

/-- A list is read back when each of its elements is, whatever comes after an element. -/
theorem parseList_printList (hclose : Closes close) {xs : List α} (hn : xs.length ≤ n)
    (hitem : ∀ x ∈ xs, ∀ rest, Stop rest → item (text x ++ rest) = some (f x, rest))
    (hfirst : ∀ x ∈ xs, ∃ c cs, text x = c :: cs ∧ c.isWhitespace = false ∧ ¬Closes c)
    (rest : List Char) :
    parseList item close n (printList close (xs.map text) ++ rest) = some (xs.map f, rest) := by
  cases xs with
  | nil => simp [printList, parseList, skipWs_cons hclose.isWhitespace]
  | cons x xs =>
      have htail := parseTail_printTail hclose hn
        (fun y hy => hitem y (List.mem_cons_of_mem _ hy)) rest
      have hhead := hitem x List.mem_cons_self _ (stop_printTail hclose (xs.map text) rest)
      obtain ⟨c, cs, hx, hws, hne⟩ := hfirst x List.mem_cons_self
      have hopen : c ≠ close := by
        rintro rfl
        exact hne hclose
      rw [hx, List.cons_append] at hhead
      simp only [List.map_cons, printList, hx, List.cons_append, List.append_assoc, parseList,
        skipWs_cons hws, if_neg hopen, hhead, Option.bind_some, htail, Option.map_some]

theorem length_lt_printTail (close : Char) (ts : List (List Char)) :
    ts.length < (printTail close ts).length ∧
      ∀ t ∈ ts, t.length < (printTail close ts).length := by
  induction ts with
  | nil => simp [printTail]
  | cons t ts ih =>
      obtain ⟨hlength, hall⟩ := ih
      simp only [printTail, List.length_cons, List.length_append, List.forall_mem_cons]
      refine ⟨by omega, by omega, fun u hu => ?_⟩
      have := hall u hu
      omega

theorem length_le_printList (close : Char) (ts : List (List Char)) :
    ts.length ≤ (printList close ts).length ∧
      ∀ t ∈ ts, t.length < (printList close ts).length := by
  cases ts with
  | nil => simp [printList]
  | cons t ts =>
      obtain ⟨hlength, hall⟩ := length_lt_printTail close ts
      simp only [printList, List.length_cons, List.length_append, List.forall_mem_cons]
      refine ⟨by omega, by omega, fun u hu => ?_⟩
      have := hall u hu
      omega

end

theorem printArray_eq_map (xs : JsonArray Rat) : printArray xs = xs.map print := by
  induction xs with
  | nil => rfl
  | cons v vs ih => rw [printArray, ih, List.map_cons]

def printMember (f : String × JsonValue Rat) : List Char := printString f.1 ++ ':' :: print f.2

theorem printObject_eq_map (fs : JsonObject Rat) : printObject fs = fs.map printMember := by
  induction fs with
  | nil => rfl
  | cons f fs ih =>
      rw [printObject, ih]
      rfl

/-- What a number begins with. -/
def Opens (c : Char) : Prop := c = '-' ∨ c.isDigit = true

theorem printInt_first (n : Int) : ∃ c cs, printInt n = c :: cs ∧ Opens c := by
  cases n with
  | ofNat n =>
      obtain ⟨c, cs, hcs⟩ := List.exists_cons_of_ne_nil (Nat.toDigits_ne_nil (n := n) (b := 10))
      exact ⟨c, cs, hcs, .inr
        (Nat.isDigit_of_mem_toDigits (by decide) (by decide) (hcs ▸ List.mem_cons_self))⟩
  | negSucc n => exact ⟨'-', _, rfl, .inl rfl⟩

theorem printDouble_first (d : Rat) : ∃ c cs, printDouble d = c :: cs ∧ Opens c := by
  rw [printDouble]
  cases DoubleOps.wholeInt64 d with
  | some n => exact printInt_first n
  | none =>
      obtain ⟨c, cs, hcs, hc⟩ := printInt_first d.num
      refine ⟨c, cs ++ '/' :: Nat.toDigits 10 d.den, ?_, hc⟩
      rw [← List.cons_append, ← hcs]

theorem Opens.ne {c d : Char} (h : Opens c) (hminus : d ≠ '-') (hdigit : d.isDigit = false) :
    c ≠ d := by
  rintro rfl
  rcases h with rfl | h
  · exact hminus rfl
  · rw [hdigit] at h
    cases h

theorem Opens.isWhitespace {c : Char} (h : Opens c) : c.isWhitespace = false := by
  rw [Char.isWhitespace]
  simp [h.ne (d := ' ') (by decide) rfl, h.ne (d := '\t') (by decide) rfl,
    h.ne (d := '\r') (by decide) rfl, h.ne (d := '\n') (by decide) rfl]

theorem parseValue_number {c : Char} (h : Opens c) (n : Nat) (cs : List Char) :
    parseValue (n + 1) (c :: cs) = parseNumber (c :: cs) := by
  rw [parseValue, skipWs_cons h.isWhitespace]
  split
  case h_7 => rfl
  all_goals
    next heq =>
      obtain ⟨rfl, -⟩ := List.cons.inj heq
      exact absurd rfl (h.ne (by decide) rfl)

/-- A value begins with a character that is neither white space nor a closing bracket. -/
theorem print_first (v : JsonValue Rat) :
    ∃ c cs, print v = c :: cs ∧ c.isWhitespace = false ∧ ¬Closes c := by
  have hopens : ∀ c, Opens c → c.isWhitespace = false ∧ ¬Closes c := fun c hc =>
    ⟨hc.isWhitespace, not_or.mpr ⟨hc.ne (by decide) rfl, hc.ne (by decide) rfl⟩⟩
  cases v with
  | null => exact ⟨_, _, rfl, rfl, by rw [Closes]; decide⟩
  | bool b => cases b <;> exact ⟨_, _, rfl, rfl, by rw [Closes]; decide⟩
  | int64 n =>
      obtain ⟨c, cs, hcs, hc⟩ := printInt_first n
      exact ⟨c, cs, by rw [print, hcs], hopens c hc⟩
  | double d =>
      obtain ⟨c, cs, hcs, hc⟩ := printDouble_first d
      exact ⟨c, cs, by rw [print, hcs], hopens c hc⟩
  | string s => exact ⟨'"', _, by rw [print, printString], rfl, by rw [Closes]; decide⟩
  | array xs => exact ⟨'[', _, by rw [print], rfl, by rw [Closes]; decide⟩
  | object fs => exact ⟨'\x7b', _, by rw [print], rfl, by rw [Closes]; decide⟩

/-- Only a number does not tell where it ends. -/
def Ends : JsonValue Rat → List Char → Prop
  | .int64 _, rest | .double _, rest => Stop rest
  | _, _ => True

theorem Stop.ends {rest : List Char} (h : Stop rest) (v : JsonValue Rat) : Ends v rest := by
  cases v <;> first | exact h | trivial

/-- A member is read back when its value is. -/
theorem parseMember_printMember {value : List Char → Option (JsonValue Rat × List Char)}
    {f : String × JsonValue Rat} {w : JsonValue Rat} {rest : List Char}
    (h : value (print f.2 ++ rest) = some (w, rest)) :
    parseMember value (printMember f ++ rest) = some ((f.1, w), rest) := by
  simp [parseMember, printMember, printString, skipWs_cons (c := '"') rfl,
    skipWs_cons (c := ':') rfl, parseChars_printChars, h]

/-- By induction on the bound, which is at least the length of the printed value. -/
theorem parseValue_print (n : Nat) : ∀ v : JsonValue Rat, (print v).length ≤ n →
    ∀ rest, Ends v rest → parseValue n (print v ++ rest) = some (v.readBack, rest) := by
  induction n with
  | zero =>
      intro v hv
      obtain ⟨c, cs, hcs, -⟩ := print_first v
      rw [hcs] at hv
      cases hv
  | succ n ih =>
      intro v hv rest hends
      cases v with
      | null => rfl
      | bool b => cases b <;> rfl
      | int64 i =>
          obtain ⟨c, cs, hcs, hc⟩ := printInt_first i
          have hnumber := parseNumber_printInt i hends
          rw [hcs] at hnumber
          rw [print, hcs, List.cons_append, parseValue_number hc]
          exact hnumber
      | double d =>
          obtain ⟨c, cs, hcs, hc⟩ := printDouble_first d
          have hnumber := parseNumber_printDouble d hends
          rw [hcs] at hnumber
          rw [print, hcs, List.cons_append, parseValue_number hc]
          exact hnumber
      | string s =>
          simp [print, printString, parseValue, skipWs_cons (c := '"') rfl, parseChars_printChars,
            JsonValue.readBack]
      | array xs =>
          rw [print, printArray_eq_map] at hv ⊢
          obtain ⟨hlength, hall⟩ := length_le_printList ']' (xs.map print)
          rw [List.length_map] at hlength
          rw [List.length_cons] at hv
          have hitem : ∀ x ∈ xs, ∀ rest, Stop rest →
              parseValue n (print x ++ rest) = some (x.readBack, rest) := fun x hx rest hrest =>
            ih x (by have := hall _ (List.mem_map_of_mem hx); omega) rest (hrest.ends x)
          have hlist := parseList_printList (n := n) (show Closes ']' from .inl rfl) (by omega) hitem
            (fun x _ => print_first x) rest
          simp only [List.cons_append, parseValue, skipWs_cons (c := '[') rfl, hlist,
            Option.map_some, JsonValue.readBack, JsonValue.readBackArray_eq_map]
      | object fs =>
          rw [print, printObject_eq_map] at hv ⊢
          obtain ⟨hlength, hall⟩ := length_le_printList '\x7d' (fs.map printMember)
          rw [List.length_map] at hlength
          rw [List.length_cons] at hv
          have hitem : ∀ f ∈ fs, ∀ rest, Stop rest →
              parseMember (parseValue n) (printMember f ++ rest) =
                some ((f.1, f.2.readBack), rest) := by
            intro f hf rest hrest
            have hshort := hall _ (List.mem_map_of_mem hf)
            rw [printMember, List.length_append, List.length_cons] at hshort
            exact parseMember_printMember (ih f.2 (by omega) rest (hrest.ends f.2))
          have hlist := parseList_printList (n := n) (show Closes '\x7d' from .inr rfl) (by omega) hitem
            (fun f _ => ⟨'"', _, rfl, rfl, by rw [Closes]; decide⟩) rest
          simp only [List.cons_append, parseValue, skipWs_cons (c := '\x7b') rfl, hlist,
            Option.map_some, JsonValue.readBack, JsonValue.readBackObject_eq_map]

/-- A printed value is read back, up to the doubles that are whole numbers. -/
theorem parse_print (v : JsonValue Rat) : parse (print v) = some v.readBack := by
  have hstop : Stop [] := by
    intro c hc
    cases hc
  have hv := parseValue_print (print v).length v le_rfl [] (hstop.ends v)
  rw [List.append_nil] at hv
  rw [parse, hv]
  rfl

/-- The text of one object is not the beginning of another's. -/
theorem print_prefix {fs gs : JsonObject Rat} (h : print (.object fs) <+: print (.object gs)) :
    print (.object fs) = print (.object gs) := by
  obtain ⟨rest, hrest⟩ := h
  have hle : (print (.object fs)).length ≤ (print (.object gs)).length := by
    rw [← hrest, List.length_append]
    exact Nat.le_add_right ..
  have hfs := parseValue_print _ (.object fs) hle rest trivial
  have hgs := parseValue_print _ (.object gs) le_rfl [] trivial
  rw [List.append_nil, ← hrest, hrest] at hgs
  rw [hrest, hgs] at hfs
  obtain ⟨-, rfl⟩ := Prod.mk.inj (Option.some.inj hfs)
  rw [← hrest, List.append_nil]

end FatpBalancer.JsonChars

namespace FatpBalancer

/-- Values as text. -/
def JsonText.chars : JsonText (List Char) Rat where
  to_json_string v _ := JsonChars.print v
  parse_json := JsonChars.parse
  parse_json_to_json_string v _ := JsonChars.parse_print v

end FatpBalancer
