import AgriFi.JsString
import AgriFi.Middle
import AgriFi.NumberRead

/-
  Values of JavaScript as JSON texts. `JSON.stringify` drops the fields that are `undefined`;
  `JSON.parse` reads a text by nesting depth, takes the last of equal keys and puts an object's
  array indices first, as objects have them. What was written for a JSON value reads back as that
  value (`readText_text`), so a value is determined by its text (`text_injective`).
-/

namespace AgriFi.JsonText

open AgriFi.JsValue AgriFi.Split

inductive Value where
  | undefined
  | null
  | bool (b : Bool)
  | num (n : Number)
  | str (s : JsString)
  | arr (elements : List Value)
  | obj (entries : List (JsString × Value))

def Value.isUndefined : Value → Bool
  | .undefined => true
  | _ => false

/-- A JSON value: nothing is `undefined`, numbers are finite doubles, and no key is twice in an
    object. -/
inductive IsJson : Value → Prop
  | null : IsJson .null
  | bool (b : Bool) : IsJson (.bool b)
  | num {q : Rat} (h : Number.IsDouble q) : IsJson (.num (.finite q))
  | str (s : JsString) : IsJson (.str s)
  | arr {xs : List Value} (h : ∀ x ∈ xs, IsJson x) : IsJson (.arr xs)
  | obj {es : List (JsString × Value)} (hkeys : (es.map Prod.fst).Nodup)
      (h : ∀ e ∈ es, IsJson e.2) : IsJson (.obj es)

/-! ## Writing -/

mutual

/-- The text of a value within an array. -/
def text : Value → List Char
  | .undefined | .null => "null".toList
  | .bool b => if b then "true".toList else "false".toList
  | .num n => n.jsonText
  | .str s => s.quoted
  | .arr xs => '[' :: ([','].intercalate (elementTexts xs) ++ [']'])
  | .obj es => '{' :: ([','].intercalate (memberTexts es) ++ ['}'])

def elementTexts : List Value → List (List Char)
  | [] => []
  | x :: xs => text x :: elementTexts xs

def memberTexts : List (JsString × Value) → List (List Char)
  | [] => []
  | (k, v) :: es =>
    if v.isUndefined then memberTexts es else (k.quoted ++ ':' :: text v) :: memberTexts es

end

/-- `JSON.stringify`. -/
def stringify : Value → Option (List Char)
  | .undefined => none
  | v => some (text v)

/-! ## Reading -/

def isSpace (c : Char) : Bool := c = ' ' || c = '\n' || c = '\r' || c = '\t'

def skip (cs : List Char) : List Char := cs.dropWhile isSpace

/-- The characters of numbers and of `null`, `true` and `false`. -/
def isWordChar (c : Char) : Bool := c.isAlphanum || c = '.' || c = '+' || c = '-'

def readWord (word : List Char) : Option Value :=
  if word = "null".toList then some .null
  else if word = "true".toList then some (.bool true)
  else if word = "false".toList then some (.bool false)
  else (Number.readNumber word).map .num

section

variable {α : Type}

/-- Items with commas between them, up to `close`. -/
def readItems (item : List Char → Option (α × List Char)) (close : Char) :
    Nat → List Char → Option (List α × List Char)
  | 0, _ => none
  | n + 1, cs => do
    let (x, rest) ← item cs
    match skip rest with
    | [] => none
    | c :: rest =>
      if c = ',' then do
        let (xs, rest) ← readItems item close n rest
        some (x :: xs, rest)
      else if c = close then some ([x], rest)
      else none

def readList (item : List Char → Option (α × List Char)) (close : Char) (cs : List Char) :
    Option (List α × List Char) :=
  if (skip cs).head? = some close then some ([], (skip cs).tail)
  else readItems item close cs.length cs

def expect (c : Char) (cs : List Char) : Option (List Char) :=
  match skip cs with
  | [] => none
  | d :: rest => if d = c then some rest else none

def readMember (item : List Char → Option (α × List Char)) (cs : List Char) :
    Option ((JsString × α) × List Char) := do
  let rest ← expect '"' cs
  let (k, rest) ← JsString.read rest
  let rest ← expect ':' rest
  let (v, rest) ← item rest
  some ((k, v), rest)

end

/-- A value that is nested at most so deep, with what follows it. -/
def readValue : Nat → List Char → Option (Value × List Char)
  | 0, _ => none
  | depth + 1, cs =>
    match skip cs with
    | [] => none
    | c :: rest =>
      if c = '"' then (JsString.read rest).map fun p => (.str p.1, p.2)
      else if c = '[' then (readList (readValue depth) ']' rest).map fun p => (.arr p.1, p.2)
      else if c = '{' then
        (readList (readMember (readValue depth)) '}' rest).map fun p => (.obj p.1, p.2)
      else
        (readWord ((c :: rest).takeWhile isWordChar)).map fun v =>
          (v, (c :: rest).dropWhile isWordChar)

/-- The value of a text, with the members of objects as they are written. -/
def readText (cs : List Char) : Option Value :=
  match readValue (cs.length + 1) cs with
  | some (v, rest) => if skip rest = [] then some v else none
  | none => none

/-! ## Objects -/

/-- The array index that a key is. -/
def arrayIndex (k : JsString) : Option Nat :=
  let n := k.foldl (fun n u => 10 * n + (u.val - 48)) 0
  if k ≠ [] ∧ (k.all fun u => 48 ≤ u.val && u.val ≤ 57) ∧ (k.head? = some 48 → k = [48]) ∧
      n < 2 ^ 32 - 1 then
    some n
  else none

def setEntry {α : Type} (es : List (JsString × α)) (k : JsString) (v : α) : List (JsString × α) :=
  match es with
  | [] => [(k, v)]
  | e :: es => if e.1 = k then (k, v) :: es else e :: setEntry es k v

/-- The own properties in their order: array indices first, the others as they were made. -/
def ownOrder {α : Type} (es : List (JsString × α)) : List (JsString × α) :=
  let made := es.foldl (fun es e => setEntry es e.1 e.2) []
  Middle.sortOn (fun e => (arrayIndex e.1).getD 0) (made.filter fun e => (arrayIndex e.1).isSome) ++
    made.filter fun e => (arrayIndex e.1).isNone

mutual

/-- The value with its objects as they are made from their members. -/
def ordered : Value → Value
  | .undefined => .undefined
  | .null => .null
  | .bool b => .bool b
  | .num n => .num n
  | .str s => .str s
  | .arr xs => .arr (orderedElements xs)
  | .obj es => .obj (ownOrder (orderedMembers es))

def orderedElements : List Value → List Value
  | [] => []
  | x :: xs => ordered x :: orderedElements xs

def orderedMembers : List (JsString × Value) → List (JsString × Value)
  | [] => []
  | (k, v) :: es => (k, ordered v) :: orderedMembers es

end

/-- `JSON.parse`. -/
def parse (cs : List Char) : Option Value := (readText cs).map ordered

/-! ## Lists -/

section

variable {α : Type} {item : List Char → Option (α × List Char)} {piece : α → List Char}
variable {close c : Char} {cs rest word : List Char} {xs : List α} {ps : List (List Char)}

theorem skip_cons (h : isSpace c = false) : skip (c :: cs) = c :: cs :=
  List.dropWhile_cons_of_neg (by simp [h])

/-- `item` reads `x` from its piece, whatever does not continue a word follows. -/
def ReadsBack (item : List Char → Option (α × List Char)) (piece : α → List Char) (x : α) :
    Prop :=
  ∀ rest, Stops isWordChar rest → item (piece x ++ rest) = some (x, rest)

/-- The text begins with neither a space nor the end of a list. -/
def Begins (cs : List Char) : Prop :=
  ∃ c rest, cs = c :: rest ∧ isSpace c = false ∧ c ≠ ']' ∧ c ≠ '}'

/-- The characters that end a list. -/
def Closes (close : Char) : Prop := close = ']' ∨ close = '}'

theorem Closes.stops (h : Closes close) (rest : List Char) : Stops isWordChar (close :: rest) := by
  rcases h with rfl | rfl <;> exact stops_cons (by decide)

theorem Closes.skip (h : Closes close) (rest : List Char) :
    skip (close :: rest) = close :: rest := by
  rcases h with rfl | rfl <;> exact skip_cons (by decide)

theorem Closes.ne_comma (h : Closes close) : close ≠ ',' := by
  rcases h with rfl | rfl <;> decide

theorem readItems_pieces (hclose : Closes close) (hxs : xs ≠ [])
    (h : ∀ x ∈ xs, ReadsBack item piece x) {n : Nat} (hn : xs.length ≤ n) (rest : List Char) :
    readItems item close n ([','].intercalate (xs.map piece) ++ close :: rest) =
      some (xs, rest) := by
  induction xs generalizing n with
  | nil => exact absurd rfl hxs
  | cons x xs ih =>
    obtain ⟨n, rfl⟩ := Nat.exists_eq_add_one_of_ne_zero (Nat.ne_zero_of_lt hn)
    have hx := h x (List.mem_cons_self ..)
    unfold readItems
    cases xs with
    | nil =>
      rw [List.map_singleton, List.intercalate_singleton, hx _ (hclose.stops rest)]
      dsimp only [Option.bind_eq_bind, Option.bind_some]
      rw [hclose.skip]
      dsimp only
      rw [if_neg hclose.ne_comma, if_pos rfl]
    | cons y xs =>
      have hcomma : Stops isWordChar (',' :: ([','].intercalate ((y :: xs).map piece) ++
        close :: rest)) := stops_cons (by decide)
      rw [List.map_cons, List.map_cons, List.intercalate_cons_cons, List.append_assoc,
        List.append_assoc, ← List.map_cons, List.singleton_append, hx _ hcomma]
      dsimp only [Option.bind_eq_bind, Option.bind_some]
      rw [skip_cons (by decide)]
      dsimp only
      rw [if_pos rfl, ih (List.cons_ne_nil _ _) (fun x hx => h x (List.mem_cons_of_mem _ hx))
        (Nat.le_of_succ_le_succ hn), Option.bind_some]

theorem length_le_intercalate (h : ∀ p ∈ ps, p ≠ []) :
    ps.length ≤ ([','].intercalate ps).length := by
  induction ps with
  | nil => exact Nat.zero_le _
  | cons p ps ih =>
    have hp := List.length_pos_iff.mpr (h p (List.mem_cons_self ..))
    have hps := ih fun q hq => h q (List.mem_cons_of_mem _ hq)
    cases ps with
    | nil =>
      rw [List.intercalate_singleton]
      exact hp
    | cons q ps =>
      rw [List.intercalate_cons_cons, List.length_append, List.length_append, List.length_cons]
      omega

theorem length_piece_le {p : List Char} (h : p ∈ ps) :
    p.length ≤ ([','].intercalate ps).length := by
  induction ps with
  | nil => cases h
  | cons q ps ih =>
    cases ps with
    | nil => rw [List.intercalate_singleton, List.mem_singleton.mp h]
    | cons r ps =>
      rw [List.intercalate_cons_cons, List.length_append, List.length_append]
      rcases List.mem_cons.mp h with rfl | h
      · omega
      · have := ih h
        omega

/-- A list is read back from its pieces, one after the other. -/
theorem readList_pieces (hclose : Closes close) (h : ∀ x ∈ xs, ReadsBack item piece x)
    (hbegins : ∀ x ∈ xs, Begins (piece x)) (rest : List Char) :
    readList item close ([','].intercalate (xs.map piece) ++ close :: rest) = some (xs, rest) := by
  unfold readList
  cases xs with
  | nil =>
    have hnil : [','].intercalate (List.map piece []) ++ close :: rest = close :: rest := rfl
    rw [hnil, hclose.skip]
    exact if_pos rfl
  | cons x xs =>
    have hne : ∀ p ∈ (x :: xs).map piece, p ≠ [] := by
      intro p hp
      obtain ⟨y, hy, rfl⟩ := List.mem_map.mp hp
      obtain ⟨c, cs, hcs, -⟩ := hbegins y hy
      exact hcs ▸ List.cons_ne_nil c cs
    have hlength := length_le_intercalate hne
    obtain ⟨c, cs, hcs, hspace, hsquare, hcurly⟩ := hbegins x (List.mem_cons_self ..)
    obtain ⟨tail, htail⟩ : ∃ tail, [','].intercalate ((x :: xs).map piece) = c :: tail := by
      cases xs with
      | nil => exact ⟨cs, by rw [List.map_singleton, List.intercalate_singleton, hcs]⟩
      | cons y xs =>
        refine ⟨cs ++ [','] ++ [','].intercalate ((y :: xs).map piece), ?_⟩
        rw [List.map_cons, List.map_cons, List.intercalate_cons_cons, hcs, ← List.map_cons]
        rfl
    rw [if_neg, readItems_pieces hclose (List.cons_ne_nil x xs) h]
    · rw [List.length_append]
      rw [List.length_map] at hlength
      omega
    · rw [htail, List.cons_append, skip_cons hspace]
      intro heq
      rcases hclose with rfl | rfl
      · exact hsquare (Option.some.inj heq)
      · exact hcurly (Option.some.inj heq)

/-- A member of an object. -/
def memberText (text : α → List Char) (e : JsString × α) : List Char :=
  e.1.quoted ++ ':' :: text e.2

theorem begins_quoted (s : JsString) (cs : List Char) : Begins (s.quoted ++ cs) :=
  ⟨'"', _, rfl, by decide, by decide, by decide⟩

theorem expect_cons (h : isSpace c = false) (rest : List Char) :
    expect c (c :: rest) = some rest := by
  unfold expect
  rw [skip_cons h]
  exact if_pos rfl

theorem readMember_memberText {e : JsString × α} (h : ReadsBack item piece e.2) :
    ReadsBack (readMember item) (memberText piece) e := by
  intro rest hrest
  have htext : memberText piece e ++ rest =
      '"' :: (JsString.write JsString.quoteUnit e.1 ++ '"' :: ':' :: (piece e.2 ++ rest)) := by
    simp only [memberText, JsString.quoted, List.cons_append, List.append_assoc, List.nil_append]
  unfold readMember
  rw [htext, expect_cons (by decide)]
  dsimp only [Option.bind_eq_bind, Option.bind_some]
  rw [JsString.read_quoted]
  dsimp only [Option.bind_some]
  rw [expect_cons (by decide)]
  dsimp only [Option.bind_some]
  rw [h rest hrest]
  rfl

end

/-! ## Values -/

section

variable {v w : Value} {xs : List Value} {es : List (JsString × Value)} {word rest : List Char}

theorem isWordChar_of_isPlain {c : Char} (h : Number.IsPlain c) : isWordChar c = true := by
  unfold isWordChar
  rcases h with h | rfl | rfl | rfl
  · rw [h]
    rfl
  all_goals decide

theorem isWordChar_of_all (h : word.all isWordChar = true) : ∀ c ∈ word, isWordChar c = true :=
  List.all_eq_true.mp h

theorem begins_word (hne : word ≠ []) (h : ∀ c ∈ word, isWordChar c = true) (rest : List Char) :
    Begins (word ++ rest) := by
  obtain ⟨c, cs, rfl⟩ := List.exists_cons_of_ne_nil hne
  have hc := h c (List.mem_cons_self ..)
  refine ⟨c, cs ++ rest, rfl, ?_, ?_, ?_⟩
  · rw [← Bool.not_eq_true]
    intro hspace
    simp only [isSpace, Bool.or_eq_true, decide_eq_true_eq] at hspace
    rcases hspace with ((rfl | rfl) | rfl) | rfl <;> exact absurd hc (by decide)
  · rintro rfl
    exact absurd hc (by decide)
  · rintro rfl
    exact absurd hc (by decide)

theorem readValue_word {depth : Nat} (hne : word ≠ []) (h : ∀ c ∈ word, isWordChar c = true)
    (hrest : Stops isWordChar rest) :
    readValue (depth + 1) (word ++ rest) = (readWord word).map fun v => (v, rest) := by
  obtain ⟨htake, hdrop⟩ := takeWhile_stops h hrest
  obtain ⟨c, cs, rfl⟩ := List.exists_cons_of_ne_nil hne
  have hc := h c (List.mem_cons_self ..)
  obtain ⟨c', cs', heq, hspace, -, -⟩ := begins_word hne h rest
  obtain ⟨rfl, rfl⟩ := List.cons.inj heq
  have hother : ∀ d, isWordChar d = false → c ≠ d := by
    rintro d hd rfl
    rw [hc] at hd
    cases hd
  unfold readValue
  rw [List.cons_append] at htake hdrop ⊢
  rw [skip_cons hspace]
  dsimp only
  rw [if_neg (hother _ (by decide)), if_neg (hother _ (by decide)), if_neg (hother _ (by decide)),
    htake, hdrop]

theorem elementTexts_eq (xs : List Value) : elementTexts xs = xs.map text := by
  induction xs with
  | nil => rfl
  | cons x xs ih => exact congrArg (text x :: ·) ih

theorem memberTexts_eq (h : ∀ e ∈ es, e.2.isUndefined = false) :
    memberTexts es = es.map (memberText text) := by
  induction es with
  | nil => rfl
  | cons e es ih =>
    rw [memberTexts, if_neg (by simp [h e (List.mem_cons_self ..)]),
      ih fun e he => h e (List.mem_cons_of_mem _ he)]
    rfl

theorem IsJson.isUndefined (h : IsJson v) : v.isUndefined = false := by
  cases h <;> rfl

theorem IsJson.memberTexts (h : ∀ e ∈ es, IsJson e.2) :
    memberTexts es = es.map (memberText text) :=
  memberTexts_eq fun e he => (h e he).isUndefined

theorem readWord_toText {q : Rat} (h : Number.IsDouble q) :
    readWord (Number.toText (.finite q)) = some (.num (.finite q)) := by
  have hread := Number.readNumber_toText h
  have hword : ∀ word, Number.readNumber word = none → Number.toText (.finite q) ≠ word := by
    rintro word hword rfl
    rw [hword] at hread
    cases hread
  unfold readWord
  rw [if_neg (hword _ rfl), if_neg (hword _ rfl), if_neg (hword _ rfl), hread, Option.map_some]

theorem isWordChar_toText {q : Rat} :
    ∀ c ∈ Number.toText (.finite q), isWordChar c = true :=
  fun _ h => isWordChar_of_isPlain (Number.isPlain_toText h)

theorem toText_ne_nil {q : Rat} (h : Number.IsDouble q) : Number.toText (.finite q) ≠ [] := by
  intro hnil
  have hread := Number.readNumber_toText h
  rw [hnil] at hread
  cases hread

theorem begins_text (h : IsJson v) : Begins (text v) := by
  cases h with
  | null => exact ⟨'n', _, rfl, by decide, by decide, by decide⟩
  | bool b =>
    cases b
    · exact ⟨'f', _, rfl, by decide, by decide, by decide⟩
    · exact ⟨'t', _, rfl, by decide, by decide, by decide⟩
  | num h =>
    have hbegins := begins_word (toText_ne_nil h) isWordChar_toText []
    rwa [List.append_nil] at hbegins
  | str s => exact ⟨'"', _, rfl, by decide, by decide, by decide⟩
  | arr h => exact ⟨'[', _, rfl, by decide, by decide, by decide⟩
  | obj hkeys h => exact ⟨'{', _, rfl, by decide, by decide, by decide⟩

/-- A value is read back from its text. -/
theorem readValue_text (h : IsJson v) (depth : Nat) (hdepth : (text v).length ≤ depth) :
    ReadsBack (readValue depth) text v := by
  obtain ⟨depth, rfl⟩ : ∃ d, depth = d + 1 := by
    obtain ⟨c, cs, hcs, -⟩ := begins_text h
    rw [hcs, List.length_cons] at hdepth
    exact Nat.exists_eq_add_one_of_ne_zero (by omega)
  induction h generalizing depth with
  | null =>
    intro rest hrest
    rw [text, readValue_word (by decide) (isWordChar_of_all (by decide)) hrest]
    rfl
  | bool b =>
    intro rest hrest
    rw [text]
    split
    · next hb =>
      subst hb
      rw [readValue_word (by decide) (isWordChar_of_all (by decide)) hrest]
      rfl
    · next hb =>
      obtain rfl := Bool.eq_false_iff.mpr hb
      rw [readValue_word (by decide) (isWordChar_of_all (by decide)) hrest]
      rfl
  | num h =>
    intro rest hrest
    rw [text, Number.jsonText, readValue_word (toText_ne_nil h) isWordChar_toText hrest,
      readWord_toText h, Option.map_some]
  | str s =>
    intro rest hrest
    rw [text, JsString.quoted, List.cons_append, readValue, skip_cons (by decide)]
    dsimp only
    rw [if_pos rfl, List.append_assoc, List.singleton_append, JsString.read_quoted,
      Option.map_some]
  | @arr xs h ih =>
    intro rest hrest
    rw [text, elementTexts_eq] at hdepth ⊢
    rw [List.length_cons, List.length_append, List.length_singleton] at hdepth
    have hitem : ∀ x ∈ xs, ReadsBack (readValue depth) text x := by
      intro x hx
      have hlength := length_piece_le (List.mem_map_of_mem (f := text) hx)
      obtain ⟨c, cs, hcs, -⟩ := begins_text (h x hx)
      obtain ⟨d, rfl⟩ : ∃ d, depth = d + 1 := by
        rw [hcs, List.length_cons] at hlength
        exact Nat.exists_eq_add_one_of_ne_zero (by omega)
      exact ih x hx d (by omega)
    rw [List.cons_append, readValue, skip_cons (by decide)]
    dsimp only
    rw [if_neg (by decide), if_pos rfl, List.append_assoc, List.singleton_append,
      readList_pieces (.inl rfl) hitem fun x hx => begins_text (h x hx), Option.map_some]
  | @obj es hkeys h ih =>
    intro rest hrest
    rw [text, IsJson.memberTexts h] at hdepth ⊢
    rw [List.length_cons, List.length_append, List.length_singleton] at hdepth
    have hitem : ∀ e ∈ es, ReadsBack (readMember (readValue depth)) (memberText text) e := by
      intro e he
      have hlength := length_piece_le (List.mem_map_of_mem (f := memberText text) he)
      rw [memberText, List.length_append, List.length_cons] at hlength
      obtain ⟨d, rfl⟩ : ∃ d, depth = d + 1 := Nat.exists_eq_add_one_of_ne_zero (by omega)
      exact readMember_memberText (ih e he d (by omega))
    rw [List.cons_append, readValue, skip_cons (by decide)]
    dsimp only
    rw [if_neg (by decide), if_neg (by decide), if_pos rfl, List.append_assoc,
      List.singleton_append, readList_pieces (.inr rfl) hitem fun e _ => begins_quoted _ _,
      Option.map_some]

theorem readText_text (h : IsJson v) : readText (text v) = some v := by
  have hread := readValue_text h ((text v).length + 1) (Nat.le_succ _) [] stops_nil
  rw [List.append_nil] at hread
  unfold readText
  rw [hread]
  exact if_pos rfl

theorem parse_text (h : IsJson v) (hordered : ordered v = v) : parse (text v) = some v := by
  unfold parse
  rw [readText_text h, Option.map_some, hordered]

theorem text_injective (hv : IsJson v) (hw : IsJson w) (h : text v = text w) : v = w := by
  have hread := readText_text hv
  rw [h, readText_text hw] at hread
  exact (Option.some.inj hread).symm

/-! ## Objects with names for keys -/

theorem setEntry_of_new {es : List (JsString × α)} {k : JsString} (h : k ∉ es.map Prod.fst)
    (x : α) : setEntry es k x = es ++ [(k, x)] := by
  induction es with
  | nil => rfl
  | cons e es ih =>
    simp only [List.map_cons, List.mem_cons, not_or] at h
    rw [setEntry, if_neg (Ne.symm h.1), ih h.2, List.cons_append]

theorem foldl_setEntry {es fs : List (JsString × α)} (h : ((fs ++ es).map Prod.fst).Nodup) :
    es.foldl (fun fs e => setEntry fs e.1 e.2) fs = fs ++ es := by
  induction es generalizing fs with
  | nil => rw [List.append_nil]; rfl
  | cons e es ih =>
    have hnew : e.1 ∉ fs.map Prod.fst := by
      rw [List.map_append, List.nodup_append] at h
      exact fun hmem => h.2.2 _ hmem _ (by simp) rfl
    rw [List.foldl_cons, setEntry_of_new hnew, ih (by simpa using h), List.append_assoc]
    rfl

/-- An object without array indices has its properties as they were made. -/
theorem ownOrder_eq {es : List (JsString × α)} (hkeys : (es.map Prod.fst).Nodup)
    (h : ∀ e ∈ es, arrayIndex e.1 = none) : ownOrder es = es := by
  have hindices : (es.filter fun e => (arrayIndex e.1).isSome) = [] :=
    List.filter_eq_nil_iff.mpr fun e he => by simp [h e he]
  have hnames : (es.filter fun e => (arrayIndex e.1).isNone) = es :=
    List.filter_eq_self.mpr fun e he => by simp [h e he]
  unfold ownOrder
  dsimp only
  rw [foldl_setEntry (by simpa using hkeys), List.nil_append, hindices, hnames]
  rfl

end

end AgriFi.JsonText
