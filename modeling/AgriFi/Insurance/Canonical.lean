import AgriFi.JsonText

/-
  `verifySignature` and `canonicalize` of `src/insurance/insurance.service.ts`. The canonical text
  of a JSON value is the JSON text of the value with its keys sorted (`canonicalize_eq`), and so it
  is the text of no value that differs in more than the order of keys (`canonical_iff`). HMAC-SHA256
  is given as `hmac`.
-/

namespace AgriFi.Insurance

open AgriFi.JsonText AgriFi.Middle

/-! ## The source -/

mutual

def canonicalize : Value → List Char
  | .arr xs => '[' :: ([','].intercalate (canonicalizeItems xs) ++ [']'])
  | .obj es =>
    '{' :: ([','].intercalate ((sortOn Prod.fst (canonicalizeFields es)).map fun e =>
      e.1.quoted ++ ':' :: e.2) ++ ['}'])
  | .undefined => (stringify .undefined).getD "null".toList
  | .null => (stringify .null).getD "null".toList
  | .bool b => (stringify (.bool b)).getD "null".toList
  | .num n => (stringify (.num n)).getD "null".toList
  | .str s => (stringify (.str s)).getD "null".toList

def canonicalizeItems : List Value → List (List Char)
  | [] => []
  | x :: xs => canonicalize x :: canonicalizeItems xs

/-- The fields that are not `undefined`, each with its canonical text. -/
def canonicalizeFields : List (JsString × Value) → List (JsString × List Char)
  | [] => []
  | (k, v) :: es =>
    if v.isUndefined then canonicalizeFields es else (k, canonicalize v) :: canonicalizeFields es

end

/-- `signature.replace(/^sha256=/, '')`. -/
def withoutPrefix (signature : String) : List Char :=
  if "sha256=".toList <+: signature.toList then signature.toList.drop 7 else signature.toList

def verifySignature (hmac : String → List UInt8 → List UInt8) (payload : Value)
    (signature secret : String) : Except String Unit :=
  if secret = "" ∨ signature = "" then .error "Insurance webhook signature is not configured."
  else
    let expected := hmac secret (JsString.encodeUtf8 (canonicalize payload))
    let received := Hex.decode (withoutPrefix signature)
    if received.length ≠ expected.length ∨ received ≠ expected then
      .error "Insurance webhook signature is invalid."
    else .ok ()

/-! ## What is claimed -/

/-- Equal up to the order of the keys of objects, at any depth. -/
inductive Same : Value → Value → Prop
  | refl (v : Value) : Same v v
  | symm {v w : Value} (h : Same v w) : Same w v
  | trans {v w x : Value} (h : Same v w) (h' : Same w x) : Same v x
  | keys {es fs : List (JsString × Value)} (h : es.Perm fs) : Same (.obj es) (.obj fs)
  | element {v w : Value} (xs ys : List Value) (h : Same v w) :
      Same (.arr (xs ++ v :: ys)) (.arr (xs ++ w :: ys))
  | field {v w : Value} (es fs : List (JsString × Value)) (k : JsString) (h : Same v w) :
      Same (.obj (es ++ (k, v) :: fs)) (.obj (es ++ (k, w) :: fs))

/-- The two messages do not collide under the secret. -/
def CollisionFree (hmac : String → List UInt8 → List UInt8) (secret : String)
    (m m' : List UInt8) : Prop :=
  hmac secret m = hmac secret m' → m = m'

/-! ## Sorted keys -/

mutual

/-- The value with the keys of its objects in order. -/
def sortKeys : Value → Value
  | .undefined => .undefined
  | .null => .null
  | .bool b => .bool b
  | .num n => .num n
  | .str s => .str s
  | .arr xs => .arr (sortKeysItems xs)
  | .obj es => .obj (sortOn Prod.fst (sortKeysFields es))

def sortKeysItems : List Value → List Value
  | [] => []
  | x :: xs => sortKeys x :: sortKeysItems xs

def sortKeysFields : List (JsString × Value) → List (JsString × Value)
  | [] => []
  | (k, v) :: es => (k, sortKeys v) :: sortKeysFields es

end

section

variable {α β : Type} {v w : Value} {xs ys : List Value} {es fs : List (JsString × Value)}

/-- The values of the fields, each changed. -/
def mapValues (f : α → β) (es : List (JsString × α)) : List (JsString × β) :=
  es.map fun e => (e.1, f e.2)

theorem keys_mapValues (f : α → β) (es : List (JsString × α)) :
    (mapValues f es).map Prod.fst = es.map Prod.fst := List.map_map

theorem sortOn_mapValues (f : α → β) (es : List (JsString × α)) :
    sortOn Prod.fst (mapValues f es) = mapValues f (sortOn Prod.fst es) := by
  unfold sortOn mapValues
  rw [List.map_insertionSort _ (fun x y : JsString × β => x.1 ≤ y.1)]
  exact fun _ _ _ _ => Iff.rfl

theorem sortKeys_arr (xs : List Value) : sortKeys (.arr xs) = .arr (xs.map sortKeys) := by
  have hitems : sortKeysItems xs = xs.map sortKeys := by
    induction xs with
    | nil => rfl
    | cons x xs ih => rw [sortKeysItems, ih, List.map_cons]
  rw [sortKeys, hitems]

theorem sortKeys_obj (es : List (JsString × Value)) :
    sortKeys (.obj es) = .obj (sortOn Prod.fst (mapValues sortKeys es)) := by
  have hfields : sortKeysFields es = mapValues sortKeys es := by
    induction es with
    | nil => rfl
    | cons e es ih => rw [sortKeysFields, ih]; rfl
  rw [sortKeys, hfields]

theorem canonicalizeItems_eq (xs : List Value) : canonicalizeItems xs = xs.map canonicalize := by
  induction xs with
  | nil => rfl
  | cons x xs ih => rw [canonicalizeItems, ih, List.map_cons]

theorem canonicalizeFields_eq (h : ∀ e ∈ es, IsJson e.2) :
    canonicalizeFields es = mapValues canonicalize es := by
  induction es with
  | nil => rfl
  | cons e es ih =>
    rw [canonicalizeFields, if_neg (by simp [(h e (List.mem_cons_self ..)).isUndefined]),
      ih fun e he => h e (List.mem_cons_of_mem _ he)]
    rfl

theorem mem_sorted {e : JsString × Value} (h : e ∈ sortOn Prod.fst (mapValues sortKeys es)) :
    ∃ e' ∈ es, e = (e'.1, sortKeys e'.2) := by
  obtain ⟨e', he', rfl⟩ := List.mem_map.mp ((sortOn_perm ..).subset h)
  exact ⟨e', he', rfl⟩

theorem isJson_sortKeys (h : IsJson v) : IsJson (sortKeys v) := by
  induction h with
  | null => exact .null
  | bool b => exact .bool b
  | num h => exact .num h
  | str s => exact .str s
  | arr h ih =>
    rw [sortKeys_arr]
    refine .arr fun x hx => ?_
    obtain ⟨y, hy, rfl⟩ := List.mem_map.mp hx
    exact ih y hy
  | @obj es hkeys h ih =>
    rw [sortKeys_obj]
    refine .obj ?_ fun e he => ?_
    · rw [((sortOn_perm _ _).map Prod.fst).nodup_iff, keys_mapValues]
      exact hkeys
    · obtain ⟨e', he', rfl⟩ := mem_sorted he
      exact ih e' he'

/-- The canonical text is the JSON text with the keys in order. -/
theorem canonicalize_eq (h : IsJson v) : canonicalize v = text (sortKeys v) := by
  induction h with
  | null => rfl
  | bool b => rfl
  | num h => rfl
  | str s => rfl
  | @arr xs h ih =>
    rw [sortKeys_arr, canonicalize, text, canonicalizeItems_eq, elementTexts_eq, List.map_map,
      List.map_congr_left ih]
    rfl
  | @obj es hkeys h ih =>
    have hsorted : ∀ e ∈ sortOn Prod.fst (mapValues sortKeys es), IsJson e.2 := by
      intro e he
      obtain ⟨e', he', rfl⟩ := mem_sorted he
      exact isJson_sortKeys (h e' he')
    have hfields : mapValues canonicalize es = mapValues text (mapValues sortKeys es) := by
      unfold mapValues
      rw [List.map_map]
      exact List.map_congr_left fun e he => Prod.ext rfl (ih e he)
    rw [sortKeys_obj, canonicalize, text, canonicalizeFields_eq h, IsJson.memberTexts hsorted,
      hfields, sortOn_mapValues text, mapValues, List.map_map]
    rfl

/-! ## Equality up to the order of keys -/

theorem same_map (f : Value → Value) (h : ∀ x ∈ xs, Same x (f x)) (ys : List Value) :
    Same (.arr (ys ++ xs)) (.arr (ys ++ xs.map f)) := by
  induction xs generalizing ys with
  | nil => exact .refl _
  | cons x xs ih =>
    have htail := ih (fun y hy => h y (List.mem_cons_of_mem _ hy)) (ys ++ [f x])
    rw [List.append_assoc, List.append_assoc] at htail
    exact .trans (.element ys xs (h x (List.mem_cons_self ..))) htail

theorem same_mapValues (f : Value → Value) (h : ∀ e ∈ es, Same e.2 (f e.2))
    (fs : List (JsString × Value)) : Same (.obj (fs ++ es)) (.obj (fs ++ mapValues f es)) := by
  induction es generalizing fs with
  | nil => exact .refl _
  | cons e es ih =>
    have htail := ih (fun e he => h e (List.mem_cons_of_mem _ he)) (fs ++ [(e.1, f e.2)])
    rw [List.append_assoc, List.append_assoc] at htail
    exact .trans (.field fs es e.1 (h e (List.mem_cons_self ..))) htail

theorem same_sortKeys (h : IsJson v) : Same v (sortKeys v) := by
  induction h with
  | null => exact .refl _
  | bool b => exact .refl _
  | num h => exact .refl _
  | str s => exact .refl _
  | arr h ih =>
    rw [sortKeys_arr]
    exact same_map sortKeys ih []
  | obj hkeys h ih =>
    rw [sortKeys_obj]
    exact .trans (same_mapValues sortKeys ih []) (.keys (sortOn_perm _ _).symm)

/-- Sorting by distinct keys does not depend on the order before. -/
theorem sortOn_eq_of_perm {es fs : List (JsString × α)} (hkeys : (es.map Prod.fst).Nodup)
    (h : es.Perm fs) : sortOn Prod.fst es = sortOn Prod.fst fs := by
  have hperm := (sortOn_perm Prod.fst es).trans (h.trans (sortOn_perm Prod.fst fs).symm)
  refine hperm.eq_of_pairwise ?_ (sortOn_pairwise _ _) (sortOn_pairwise _ _)
  intro e e' he he' hle hge
  have hmem : e' ∈ es := h.symm.subset ((sortOn_perm _ _).subset he')
  exact List.inj_on_of_nodup_map hkeys ((sortOn_perm _ _).subset he) hmem (le_antisymm hle hge)

theorem isJson_arr_iff : IsJson (.arr xs) ↔ ∀ x ∈ xs, IsJson x :=
  ⟨fun h => by cases h; assumption, .arr⟩

theorem isJson_obj_iff :
    IsJson (.obj es) ↔ (es.map Prod.fst).Nodup ∧ ∀ e ∈ es, IsJson e.2 :=
  ⟨fun h => by cases h; exact ⟨by assumption, by assumption⟩, fun h => .obj h.1 h.2⟩

theorem sortKeys_of_same (h : Same v w) :
    (IsJson v ↔ IsJson w) ∧ (IsJson v → sortKeys v = sortKeys w) := by
  induction h with
  | refl v => exact ⟨Iff.rfl, fun _ => rfl⟩
  | symm _ ih => exact ⟨ih.1.symm, fun h => (ih.2 (ih.1.mpr h)).symm⟩
  | trans _ _ ih ih' =>
    exact ⟨ih.1.trans ih'.1, fun h => (ih.2 h).trans (ih'.2 (ih.1.mp h))⟩
  | @keys es fs h =>
    refine ⟨?_, fun hes => ?_⟩
    · rw [isJson_obj_iff, isJson_obj_iff, (h.map Prod.fst).nodup_iff]
      exact and_congr_right fun _ => forall_congr' fun e => by rw [h.mem_iff]
    · have hkeys : ((mapValues sortKeys es).map Prod.fst).Nodup := by
        rw [keys_mapValues]
        exact (isJson_obj_iff.mp hes).1
      rw [sortKeys_obj, sortKeys_obj, sortOn_eq_of_perm hkeys (h.map _)]
      rfl
  | element xs ys _ ih =>
    refine ⟨?_, fun h => ?_⟩
    · rw [isJson_arr_iff, isJson_arr_iff]
      simp only [List.forall_mem_append, List.forall_mem_cons, ih.1]
    · have hv := isJson_arr_iff.mp h _ (List.mem_append_right xs (List.mem_cons_self ..))
      rw [sortKeys_arr, sortKeys_arr, List.map_append, List.map_append, List.map_cons,
        List.map_cons, ih.2 hv]
  | field es fs k _ ih =>
    refine ⟨?_, fun h => ?_⟩
    · rw [isJson_obj_iff, isJson_obj_iff]
      simp only [List.forall_mem_append, List.forall_mem_cons, ih.1, List.map_append,
        List.map_cons]
    · have hv := (isJson_obj_iff.mp h).2 _ (List.mem_append_right es (List.mem_cons_self ..))
      rw [sortKeys_obj, sortKeys_obj, mapValues, mapValues, List.map_append, List.map_append,
        List.map_cons, List.map_cons, ih.2 hv]

/-- One canonical text for what is equal up to the order of keys, and for nothing else. -/
theorem canonical_iff (hv : IsJson v) (hw : IsJson w) :
    canonicalize v = canonicalize w ↔ Same v w := by
  constructor
  · intro h
    rw [canonicalize_eq hv, canonicalize_eq hw] at h
    have hsorted := text_injective (isJson_sortKeys hv) (isJson_sortKeys hw) h
    exact .trans (same_sortKeys hv) (hsorted ▸ .symm (same_sortKeys hw))
  · intro h
    rw [canonicalize_eq hv, canonicalize_eq hw, (sortKeys_of_same h).2 hv]

end

/-! ## Signatures -/

section

variable {hmac : String → List UInt8 → List UInt8} {v w : Value} {signature secret : String}

theorem verifySignature_ok :
    verifySignature hmac v signature secret = .ok () ↔ secret ≠ "" ∧ signature ≠ "" ∧
      Hex.decode (withoutPrefix signature) =
        hmac secret (JsString.encodeUtf8 (canonicalize v)) := by
  unfold verifySignature
  dsimp only
  split
  · next h => exact ⟨nofun, fun hok => absurd h (not_or.mpr ⟨hok.1, hok.2.1⟩)⟩
  · next h =>
    obtain ⟨hsecret, hsignature⟩ := not_or.mp h
    split
    · next hne =>
      refine ⟨nofun, fun hok => ?_⟩
      rcases hne with hlength | hbytes
      · exact absurd (congrArg List.length hok.2.2) hlength
      · exact absurd hok.2.2 hbytes
    · next hne => exact ⟨fun _ => ⟨hsecret, hsignature, not_not.mp (not_or.mp hne).2⟩, fun _ => rfl⟩

theorem verifySignature_iff
    (hfree : CollisionFree hmac secret (JsString.encodeUtf8 (canonicalize v))
      (JsString.encodeUtf8 (canonicalize w)))
    (hok : verifySignature hmac v signature secret = .ok ()) :
    verifySignature hmac w signature secret = .ok () ↔ canonicalize v = canonicalize w := by
  obtain ⟨hsecret, hsignature, hbytes⟩ := verifySignature_ok.mp hok
  rw [verifySignature_ok, hbytes]
  constructor
  · exact fun h => JsString.encodeUtf8_injective (hfree h.2.2)
  · exact fun h => ⟨hsecret, hsignature, by rw [h]⟩

/-- Two JSON values have one canonical text exactly when they are equal up to the order of keys;
    and a signature that is accepted for the one is accepted for the other in the same case. -/
theorem canonicalize_injective (hv : IsJson v) (hw : IsJson w) :
    (canonicalize v = canonicalize w ↔ Same v w) ∧
      ∀ hmac signature secret,
        CollisionFree hmac secret (JsString.encodeUtf8 (canonicalize v))
          (JsString.encodeUtf8 (canonicalize w)) →
        verifySignature hmac v signature secret = .ok () →
          (verifySignature hmac w signature secret = .ok () ↔ Same v w) := by
  refine ⟨canonical_iff hv hw, fun hmac signature secret hfree hok => ?_⟩
  rw [verifySignature_iff hfree hok, canonical_iff hv hw]

theorem canonicalize_injective_reordered :
    let v : Value := .obj [([98], .arr [.num (.finite 1), .str [120]]), ([97], .null)]
    let w : Value := .obj [([97], .null), ([98], .arr [.num (.finite 1), .str [120]])]
    let hmac : String → List UInt8 → List UInt8 := fun _ m =>
      if m = JsString.encodeUtf8 "\x7b\"a\":null,\"b\":[1,\"x\"]\x7d".toList then
        [76, 222, 185, 3, 161, 249, 92, 71, 96, 2, 179, 102, 39, 246, 18, 140, 228, 115, 153, 81,
          153, 186, 88, 154, 88, 71, 202, 140, 148, 15, 227, 134]
      else []
    let signature := "sha256=4cdeb903a1f95c476002b36627f6128ce473995199ba589a5847ca8c940fe386"
    (canonicalize v = canonicalize w ↔ Same v w) ∧
      (verifySignature hmac w signature "whsec" = .ok () ↔ Same v w) := by
  intro v w hmac signature
  have hone : IsJson (.num (.finite 1)) := .num (by decide +kernel)
  have hlist : IsJson (.arr [.num (.finite 1), .str [120]]) :=
    .arr (List.forall_mem_cons.mpr ⟨hone, List.forall_mem_singleton.mpr (.str _)⟩)
  have hv : IsJson v :=
    .obj (by decide) (List.forall_mem_cons.mpr ⟨hlist, List.forall_mem_singleton.mpr .null⟩)
  have hw : IsJson w :=
    .obj (by decide) (List.forall_mem_cons.mpr ⟨.null, List.forall_mem_singleton.mpr hlist⟩)
  have hsame : canonicalize v = canonicalize w := by decide +kernel
  obtain ⟨hcanonical, hsigned⟩ := canonicalize_injective hv hw
  refine ⟨hcanonical, hsigned hmac signature "whsec" (fun _ => by rw [hsame]) ?_⟩
  exact verifySignature_ok.mpr ⟨by decide, by decide, by decide +kernel⟩

/-! ## Bodies in transit -/

/-- What distinct keys make an object of are its members in another order. -/
theorem ownOrder_perm {α : Type} {es : List (JsString × α)} (hkeys : (es.map Prod.fst).Nodup) :
    (ownOrder es).Perm es := by
  unfold ownOrder
  rw [foldl_setEntry (by simpa using hkeys), List.nil_append]
  refine ((sortOn_perm _ _).append_right _).trans ?_
  have hsplit := List.filter_append_perm (fun e : JsString × α => (arrayIndex e.1).isSome) es
  simpa using hsplit

theorem ordered_arr (xs : List Value) : ordered (.arr xs) = .arr (xs.map ordered) := by
  have helements : orderedElements xs = xs.map ordered := by
    induction xs with
    | nil => rfl
    | cons x xs ih => rw [orderedElements, ih, List.map_cons]
  rw [ordered, helements]

theorem ordered_obj (es : List (JsString × Value)) :
    ordered (.obj es) = .obj (ownOrder (mapValues ordered es)) := by
  have hmembers : orderedMembers es = mapValues ordered es := by
    induction es with
    | nil => rfl
    | cons e es ih => rw [orderedMembers, ih]; rfl
  rw [ordered, hmembers]

theorem same_ordered (h : IsJson v) : Same v (ordered v) := by
  induction h with
  | null => exact .refl _
  | bool b => exact .refl _
  | num h => exact .refl _
  | str s => exact .refl _
  | arr h ih =>
    rw [ordered_arr]
    exact same_map ordered ih []
  | obj hkeys h ih =>
    rw [ordered_obj]
    refine .trans (same_mapValues ordered ih []) (.keys (ownOrder_perm ?_).symm)
    rwa [List.nil_append, keys_mapValues]

/-- What `JSON.parse` makes of a text of the value. -/
theorem parse_same (hv : IsJson v) (hw : IsJson w) (h : Same v w) :
    ∃ x, parse (text w) = some x ∧ canonicalize x = canonicalize v := by
  have hsame : Same v (ordered w) := .trans h (same_ordered hw)
  refine ⟨ordered w, by rw [parse, readText_text hw, Option.map_some], ?_⟩
  exact ((canonical_iff hv ((sortKeys_of_same hsame).1.mp hv)).mpr hsame).symm

/-- The body is sent as its JSON text or as its canonical text: what is parsed of it is accepted
    with the signature that was made for the value. -/
theorem signed_body_accepted (hv : IsJson v) (hsecret : secret ≠ "") :
    ∀ body ∈ [text v, canonicalize v], ∃ x, parse body = some x ∧
      verifySignature hmac x
        ("sha256=" ++ String.ofList
          (Hex.encode (hmac secret (JsString.encodeUtf8 (canonicalize v))))) secret = .ok () := by
  intro body hbody
  have hread : ∃ x, parse body = some x ∧ canonicalize x = canonicalize v := by
    rcases List.mem_cons.mp hbody with rfl | hbody
    · exact parse_same hv hv (.refl v)
    · rw [List.mem_singleton.mp hbody]
      nth_rewrite 1 [canonicalize_eq hv]
      exact parse_same hv (isJson_sortKeys hv) (same_sortKeys hv)
  obtain ⟨x, hparse, hx⟩ := hread
  refine ⟨x, hparse, verifySignature_ok.mpr ⟨hsecret, fun h => ?_, ?_⟩⟩
  · have hlength := congrArg String.length h
    simp at hlength
  · have hdrop (cs : List Char) : ("sha256=".toList ++ cs).drop 7 = cs := rfl
    rw [hx, withoutPrefix, String.toList_append, if_pos (List.prefix_append _ _), hdrop,
      String.toList_ofList, Hex.decode_encode]

/-- The key `1` is an array index, which `JSON.parse` puts first. -/
theorem signed_body_accepted_indexed :
    let v : Value := .obj [([98], .null), ([49], .bool true)]
    let hmac : String → List UInt8 → List UInt8 := fun _ m => m.take 32
    ∀ body ∈ [text v, canonicalize v], ∃ x, parse body = some x ∧
      verifySignature hmac x
        ("sha256=" ++ String.ofList
          (Hex.encode (hmac "whsec" (JsString.encodeUtf8 (canonicalize v))))) "whsec" = .ok () := by
  intro v hmac
  have hv : IsJson v :=
    .obj (by decide) (List.forall_mem_cons.mpr ⟨.null, List.forall_mem_singleton.mpr (.bool _)⟩)
  exact signed_body_accepted hv (by decide)

end

end AgriFi.Insurance
