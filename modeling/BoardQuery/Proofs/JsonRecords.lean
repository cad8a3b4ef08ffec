/-
Records in any order.  An object has members, each with a key that is spelled in
some way and a well-formed value.  Its known members are taken one by one, in
whatever order they come; each other member is passed over, whatever its value
is, and nothing in it is taken for a member.
-/
import BoardQuery.Proofs.JsonTexts

namespace BoardQuery

/-- A member of an object with its key and the bytes of its value. -/
inductive MemberText (key : String) (raw : Bytes) : Bytes → Prop
  | mk {before spelled after front back : Bytes} (hbefore : JsonBlanks before)
      (hkey : Spells spelled key.toList) (hafter : JsonBlanks after)
      (hfront : JsonBlanks front)
      (hvalue : JsonForm .value raw) (hback : JsonBlanks back) :
      MemberText key raw
        (before ++ '"'.toUInt8 ::
          (spelled ++ (after ++ ':'.toUInt8 :: (front ++ (raw ++ back)))))

inductive MembersText : List (String × Bytes) → Bytes → Prop
  | last {key : String} {raw bs : Bytes} (h : MemberText key raw bs) :
      MembersText [(key, raw)] bs
  | next {key : String} {raw bs more : Bytes} {members : List (String × Bytes)}
      (h : MemberText key raw bs) (hmore : MembersText members more) :
      MembersText ((key, raw) :: members) (bs ++ ','.toUInt8 :: more)

/-- A text that is an object and nothing else. -/
inductive ObjectText : List (String × Bytes) → Bytes → Prop
  | empty {before bs after : Bytes} (hbefore : JsonBlanks before)
      (h : JsonBlanks bs)
      (hafter : JsonBlanks after) :
      ObjectText [] (before ++ '\x7b'.toUInt8 :: (bs ++ '\x7d'.toUInt8 :: after))
  | members {before bs after : Bytes} {members : List (String × Bytes)}
      (hbefore : JsonBlanks before) (h : MembersText members bs)
      (hafter : JsonBlanks after) :
      ObjectText members (before ++ '\x7b'.toUInt8 ::
        (bs ++ '\x7d'.toUInt8 :: after))

/-- The values of the members of one name, in their order. -/
def valuesOf {α : Type} (name : String) (members : List (String × α)) : List α :=
  members.filterMap fun m => if m.1 = name then some m.2 else none

section Values

variable {α : Type} {name key : String}

@[simp] theorem valuesOf_nil : valuesOf name ([] : List (String × α)) = [] := rfl

@[simp] theorem valuesOf_cons_self (value : α) (members : List (String × α)) :
    valuesOf name ((name, value) :: members) = value :: valuesOf name members := by
  simp [valuesOf]

@[simp] theorem valuesOf_cons_of_ne (h : key ≠ name) (value : α)
    (members : List (String × α)) :
    valuesOf name ((key, value) :: members) = valuesOf name members := by
  simp [valuesOf, h]

@[simp] theorem valuesOf_append (members more : List (String × α)) :
    valuesOf name (members ++ more) = valuesOf name members ++ valuesOf name more :=
  List.filterMap_append

theorem lookup_eq_none_iff_valuesOf {members : List (String × α)} :
    members.lookup name = none ↔ valuesOf name members = [] := by
  induction members with
  | nil => simp
  | cons m members ih =>
      obtain ⟨key, value⟩ := m
      by_cases hkey : key = name
      · subst hkey
        simp
      · rw [valuesOf_cons_of_ne hkey, ← ih, List.lookup_cons,
          beq_eq_false_iff_ne.mpr (Ne.symm hkey)]

end Values

/-- What comes of the value of a key, after the members that were found. -/
inductive Takes (schema : Schema) (found : Members) (key : String) (raw : Bytes) :
    Except Fault Members → Prop
  | unknown (hkey : schema.lookup key = none) :
      Takes schema found key raw (.ok found)
  | again {kind : Kind} {fault : Fault} (hkey : schema.lookup key = some kind)
      (hfound : valuesOf key found ≠ []) : Takes schema found key raw (.error fault)
  | read {kind : Kind} {value : Value} (hkey : schema.lookup key = some kind)
      (hfound : valuesOf key found = [])
      (hvalue : ∀ value', StandsFor kind raw value' → value = value') :
      Takes schema found key raw (.ok (found ++ [(key, value)]))
  | unfit {kind : Kind} {fault : Fault} (hkey : schema.lookup key = some kind)
      (hfound : valuesOf key found = [])
      (hvalue : ∀ value, ¬StandsFor kind raw value) :
      Takes schema found key raw (.error fault)

/-- What comes of several members, up to the first fault. -/
inductive TakesAll (schema : Schema) :
    Members → List (String × Bytes) → Except Fault Members → Prop
  | done {found : Members} : TakesAll schema found [] (.ok found)
  | stop {found : Members} {key : String} {raw : Bytes} {fault : Fault}
      {members : List (String × Bytes)}
      (h : Takes schema found key raw (.error fault)) :
      TakesAll schema found ((key, raw) :: members) (.error fault)
  | next {found found' : Members} {key : String} {raw : Bytes}
      {members : List (String × Bytes)} {outcome : Except Fault Members}
      (h : Takes schema found key raw (.ok found'))
      (hmore : TakesAll schema found' members outcome) :
      TakesAll schema found ((key, raw) :: members) outcome

section Reading

variable {schema : Schema} {found : Members} {key : String} {raw bs rest : Bytes}

theorem skipValue_blanks_append {front : Bytes} (hfront : JsonBlanks front)
    (hvalue : JsonForm .value raw) (hrest : EndsNumber rest) :
    skipValue (front ++ (raw ++ rest)) = .ok rest := by
  obtain ⟨b, tail, hskip, -⟩ := hvalue.exists_skipBlanks rest
  have happend := skipValue_append hvalue hrest
  rw [skipValue] at happend ⊢
  rw [skipOn_value_append hfront hskip, happend]

/-- A known key is taken with its value, if it comes for the first time and the
value fits. -/
theorem exists_takes {front : Bytes}
    (hcolon : skipColon bs = .ok (front ++ (raw ++ rest)))
    (hfront : JsonBlanks front) (hvalue : JsonForm .value raw)
    (hrest : EndsNumber rest) :
    ∃ outcome, Takes schema found key raw outcome ∧
      readMember schema found key bs = outcome.map fun found => (found, rest) := by
  cases hkind : schema.lookup key with
  | none =>
      have hskip := skipValue_blanks_append hfront hvalue hrest
      refine ⟨_, .unknown hkind, ?_⟩
      simp [readMember, hkind, hcolon, hskip, bind, Except.bind, pure, Except.pure,
        Except.map]
  | some kind =>
      by_cases hfound : valuesOf key found = []
      · have hnew := lookup_eq_none_iff_valuesOf.mpr hfound
        have happend := readValue_append hfront kind (raw ++ rest)
        cases hread : readValue kind (raw ++ rest) with
        | error fault =>
            have hunfit : ∀ value, ¬StandsFor kind raw value :=
              fun value hstands => by
              simp [hstands rest hrest] at hread
            refine ⟨.error fault, .unfit hkind hfound hunfit, ?_⟩
            simp [readMember, hkind, hnew, hcolon, happend, hread, bind,
              Except.bind, Except.map]
        | ok pair =>
            obtain ⟨value, after⟩ := pair
            obtain rfl := rest_eq_of_readValue hvalue hrest hread
            have honly : ∀ value', StandsFor kind raw value' → value = value' :=
              fun value' hstands =>
                (Prod.mk.inj (Except.ok.inj (hread.symm.trans (hstands _ hrest)))).1
            refine ⟨.ok (found ++ [(key, value)]), .read hkind hfound honly, ?_⟩
            simp [readMember, hkind, hnew, hcolon, happend, hread, bind,
              Except.bind, pure, Except.pure, Except.map]
      · have hagain : (found.lookup key).isSome = true := by
          rw [← Option.ne_none_iff_isSome]
          exact fun h => hfound (lookup_eq_none_iff_valuesOf.mp h)
        refine ⟨.error .unsuitable, .again hkind hfound, ?_⟩
        simp [readMember, hkind, hagain, Except.map]

theorem readMembers_of_unread {fault : Fault} (hkey : readKey bs = .error fault) :
    readMembers schema found bs = .error fault := by
  rw [readMembers]
  split <;> simp_all

theorem readMembers_of_error {fault : Fault} {inner : Bytes}
    (hkey : readKey bs = .ok (key, inner))
    (hmember : readMember schema found key inner = .error fault) :
    readMembers schema found bs = .error fault := by
  rw [readMembers]
  split
  · simp_all
  · split <;> simp_all

theorem readKey_append {before spelled : Bytes} (hbefore : JsonBlanks before)
    (hkey : Spells spelled key.toList) (rest : Bytes) :
    readKey (before ++ '"'.toUInt8 :: (spelled ++ rest)) = .ok (key, rest) := by
  rw [readKey, skipBlanks_append_cons hbefore (by decide)]
  dsimp only
  rw [if_pos rfl, hkey.readText_append]

/-- A member is taken, and the byte behind it decides how to go on. -/
theorem MemberText.exists_takes (h : MemberText key raw bs) (schema : Schema)
    (found : Members) {b : UInt8} (hb : b = ','.toUInt8 ∨ b = '\x7d'.toUInt8)
    (rest : Bytes) :
    ∃ outcome, Takes schema found key raw outcome ∧
      readMembers schema found (bs ++ b :: rest) = outcome.bind fun found =>
        if b = ','.toUInt8 then readMembers schema found rest
          else .ok (found, rest) := by
  obtain @⟨before, spelled, after, front, back, hbefore, hkey, hafter, hfront,
    hvalue, hback⟩ := h
  have hends : EndsElement b := by
    rcases hb with rfl | rfl <;> decide
  have hrest := endsNumber_append hback (hends.endsNumber rest)
  have hread := readKey_append hbefore hkey
    (after ++ ':'.toUInt8 :: (front ++ (raw ++ (back ++ b :: rest))))
  obtain ⟨outcome, htakes, hmember⟩ :=
    @BoardQuery.exists_takes schema found key _ _ _ _
    (skipColon_append hafter _) hfront hvalue hrest
  refine ⟨outcome, htakes, ?_⟩
  simp only [List.append_assoc, List.cons_append]
  cases outcome with
  | error fault => exact readMembers_of_error hread hmember
  | ok found' =>
      have hnext := skipBlanks_append_cons hback hends.isJsonBlank_eq_false rest
      rw [readMembers_of_member hread hmember hnext]
      rcases hb with rfl | rfl <;> rfl

theorem MembersText.exists_takesAll {members : List (String × Bytes)}
    (h : MembersText members bs) (schema : Schema) (found : Members)
    (rest : Bytes) :
    ∃ outcome, TakesAll schema found members outcome ∧
      readMembers schema found (bs ++ '\x7d'.toUInt8 :: rest) =
        outcome.map fun found => (found, rest) := by
  induction h generalizing found with
  | last h =>
      obtain ⟨outcome, htakes, hread⟩ := h.exists_takes schema found (.inr rfl) rest
      cases outcome with
      | error fault => exact ⟨_, .stop htakes, hread⟩
      | ok found' => exact ⟨_, .next htakes .done, hread⟩
  | @next key raw bs more members h _ ih =>
      obtain ⟨outcome, htakes, hread⟩ := h.exists_takes schema found (.inl rfl)
        (more ++ '\x7d'.toUInt8 :: rest)
      rw [List.append_assoc, List.cons_append, hread]
      cases outcome with
      | error fault => exact ⟨_, .stop htakes, rfl⟩
      | ok found' =>
          obtain ⟨outcome, hall, hmore⟩ := ih found'
          exact ⟨outcome, .next htakes hall, hmore⟩

/-- Behind some blanks the members start with the quote of a key. -/
theorem MembersText.exists_quote {members : List (String × Bytes)}
    (h : MembersText members bs) :
    ∃ blanks inner, JsonBlanks blanks ∧ bs = blanks ++ '"'.toUInt8 :: inner ∧
      MembersText members ('"'.toUInt8 :: inner) := by
  have hnil : JsonBlanks [] := nofun
  cases h with
  | last h =>
      obtain ⟨hbefore, hkey, hafter, hfront, hvalue, hback⟩ := h
      exact ⟨_, _, hbefore, rfl, .last (.mk hnil hkey hafter hfront hvalue hback)⟩
  | next h hmore =>
      obtain ⟨hbefore, hkey, hafter, hfront, hvalue, hback⟩ := h
      exact ⟨_, _, hbefore, List.append_assoc _ _ _,
        .next (.mk hnil hkey hafter hfront hvalue hback) hmore⟩

/-- What an object holds is decided by what comes of its members. -/
theorem ObjectText.exists_readRecord {members : List (String × Bytes)}
    (h : ObjectText members bs) (schema : Schema) :
    ∃ outcome after, JsonBlanks after ∧ TakesAll schema [] members outcome ∧
      readRecord schema bs = outcome.map fun found =>
        (⟨.object, found⟩, after) := by
  cases h with
  | @empty before bs after hbefore h hafter =>
      refine ⟨_, after, hafter, .done, ?_⟩
      rw [readRecord, skipBlanks_append_cons hbefore (by decide)]
      dsimp only
      rw [if_neg (by decide), if_pos rfl, skipBlanks_append_cons h (by decide)]
      rfl
  | @members before bs after _ hbefore h hafter =>
      obtain ⟨blanks, inner, hblanks, rfl, hmembers⟩ := h.exists_quote
      obtain ⟨outcome, hall, hread⟩ := hmembers.exists_takesAll schema [] after
      refine ⟨outcome, after, hafter, hall, ?_⟩
      rw [List.cons_append] at hread
      rw [readRecord, skipBlanks_append_cons hbefore (by decide)]
      dsimp only
      rw [if_neg (by decide), if_pos rfl, List.append_assoc, List.cons_append,
        skipBlanks_append_cons hblanks (by decide)]
      dsimp only
      rw [if_neg (by decide), hread]
      cases outcome <;> rfl

/-- A text with one object in it stands for what its members stand for. -/
theorem ObjectText.exists_takesAll {α : Type} {members : List (String × Bytes)}
    (h : ObjectText members bs) (schema : Schema)
    (convert : Record → Except Fault α) :
    ∃ outcome, TakesAll schema [] members outcome ∧
      readDocument schema convert bs = outcome.bind fun found =>
        convert ⟨.object, found⟩ := by
  obtain ⟨outcome, after, hafter, hall, hread⟩ := h.exists_readRecord schema
  have hend : skipBlanks after = [] := by
    rw [← List.append_nil after, skipBlanks_append hafter]
    rfl
  refine ⟨outcome, hall, ?_⟩
  cases outcome with
  | error fault => simp [readDocument, hread, bind, Except.bind, Except.map]
  | ok found =>
      cases hconvert : convert ⟨.object, found⟩ <;>
        simp [readDocument, hread, hend, hconvert, bind, Except.bind, pure,
          Except.pure, Except.map]

end Reading

section Taking

variable {schema : Schema} {found found' : Members}
  {members : List (String × Bytes)}
  {outcome : Except Fault Members} {name key : String} {raw : Bytes} {kind : Kind}

/-- A known key is taken when it has no value yet, with the one value that it
stands for. -/
theorem Takes.exists_value (h : Takes schema found key raw (.ok found'))
    (hkind : schema.lookup key = some kind) :
    valuesOf key found = [] ∧ ∃ value, valuesOf key found' = [value] ∧
      ∀ value', StandsFor kind raw value' → value = value' := by
  cases h with
  | unknown hnone => simp [hkind] at hnone
  | @read kind' value hkind' hfound honly =>
      obtain rfl := Option.some.inj (hkind.symm.trans hkind')
      exact ⟨hfound, value, by simp [hfound], honly⟩

/-- Taking a key leaves the values of every other name as they were. -/
theorem Takes.valuesOf_of_ne (h : Takes schema found key raw (.ok found'))
    (hkey : key ≠ name) :
    valuesOf name found' = valuesOf name found := by
  cases h with
  | unknown _ => rfl
  | read _ _ _ => simp [hkey]

/-- The values that are found under a known name are those that the object gives
it. -/
theorem TakesAll.valuesOf_eq (h : TakesAll schema found members (.ok found'))
    (hkind : schema.lookup name = some kind) {values : List Value}
    (hvalues : List.Forall₂ (StandsFor kind) (valuesOf name members) values) :
    valuesOf name found' = valuesOf name found ++ values := by
  generalize houtcome : Except.ok found' = outcome at h
  induction h generalizing values with
  | done =>
      obtain rfl := Except.ok.inj houtcome
      cases hvalues
      rw [List.append_nil]
  | stop h => contradiction
  | @next found found'' key raw members outcome h _ ih =>
      by_cases hkey : key = name
      · subst hkey
        rw [valuesOf_cons_self] at hvalues
        obtain ⟨value, values, hvalue, hrest, rfl⟩ :=
          List.forall₂_cons_left_iff.mp hvalues
        obtain ⟨hnone, value', hfound, honly⟩ := h.exists_value hkind
        rw [ih hrest houtcome, hfound, hnone, honly value hvalue]
        rfl
      · rw [valuesOf_cons_of_ne hkey] at hvalues
        rw [ih hvalues houtcome, h.valuesOf_of_ne hkey]

/-- Nothing goes wrong if the values of known names fit and no name is given
twice. -/
theorem TakesAll.exists_ok (h : TakesAll schema found members outcome)
    (hfit : ∀ name kind, schema.lookup name = some kind →
      (∃ values, List.Forall₂ (StandsFor kind) (valuesOf name members) values) ∧
      (valuesOf name found).length + (valuesOf name members).length ≤ 1) :
    ∃ found', outcome = .ok found' := by
  induction h with
  | done => exact ⟨_, rfl⟩
  | @stop found key raw fault members h =>
      cases h with
      | again hkind hfound =>
          have hlength := (hfit key _ hkind).2
          rw [valuesOf_cons_self, List.length_cons] at hlength
          have hpos := List.length_pos_iff.mpr hfound
          omega
      | unfit hkind _ hvalue =>
          obtain ⟨values, hvalues⟩ := (hfit key _ hkind).1
          rw [valuesOf_cons_self] at hvalues
          obtain ⟨value, _, hstands, -⟩ := List.forall₂_cons_left_iff.mp hvalues
          exact absurd hstands (hvalue value)
  | @next found found' key raw members outcome h _ ih =>
      refine ih fun name kind hkind => ?_
      obtain ⟨⟨values, hvalues⟩, hlength⟩ := hfit name kind hkind
      by_cases hkey : key = name
      · subst hkey
        rw [valuesOf_cons_self] at hvalues hlength
        obtain ⟨_, _, _, hrest, -⟩ := List.forall₂_cons_left_iff.mp hvalues
        obtain ⟨hnone, value, hfound, -⟩ := h.exists_value hkind
        refine ⟨⟨_, hrest⟩, ?_⟩
        simp only [hnone, hfound, List.length_cons, List.length_nil] at hlength ⊢
        omega
      · rw [valuesOf_cons_of_ne hkey] at hvalues hlength
        rw [h.valuesOf_of_ne hkey]
        exact ⟨⟨values, hvalues⟩, hlength⟩

/-- If nothing goes wrong, then no known name is given twice. -/
theorem TakesAll.length_le (h : TakesAll schema found members (.ok found'))
    (hkind : schema.lookup name = some kind) :
    (valuesOf name members).length ≤ 1 ∧
      (valuesOf name found ≠ [] → valuesOf name members = []) := by
  generalize houtcome : Except.ok found' = outcome at h
  induction h with
  | done => simp
  | stop h => contradiction
  | @next found found'' key raw members outcome h _ ih =>
      obtain ⟨hlength, hnone⟩ := ih houtcome
      by_cases hkey : key = name
      · subst hkey
        obtain ⟨hfound, value, hfound', -⟩ := h.exists_value hkind
        have hmembers := hnone (by simp [hfound'])
        rw [valuesOf_cons_self, hmembers]
        exact ⟨le_rfl, fun h => absurd hfound h⟩
      · rw [valuesOf_cons_of_ne hkey, ← h.valuesOf_of_ne hkey]
        exact ⟨hlength, hnone⟩

end Taking

end BoardQuery
