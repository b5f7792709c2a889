import Routine.Proofs.JsonText
import Routine.Shape.OfText
import Routine.Shape.Write

/-!
# What is encoded by shape is decoded by shape

`Shape.ofText` undoes `Shape.write`, whatever the shape, on the values that the shape is *faithful* to:

* a shape converts, and its conversion has to take the value back to itself;
* a value that is there must not look like null, where null stands for no value;
* a member that is not written must have the value that it gets when it is absent;
* the names of members differ, and so do the tags of a family;
* a codec has to read back what it writes. This is all that is asked of codecs.

`Shape.Faithful` gathers this by recursion on the shape, and `Shape.reads` is the theorem, by the same
recursion. It also bounds nesting: a text is read if it is less deep than there is room.
-/

namespace Routine

open Json (Complaint Cursor Fault Reading Reads Stops Steps)

/-! ## Faithful shapes -/

/-- The names of the members. -/
def Fields.names : {α σ : Type} → Fields α σ → List String
  | _, _, .nil => []
  | _, _, .cons name _ _ _ _ rest => name :: rest.names

/-- The codec reads back the text that it writes for a value, whatever comes after it, and the text is not null. -/
structure Codec.RoundTrips {α : Type} (c : Codec α) (a : α) : Prop where
  notNull : c.write a ≠ .null
  reads : ∀ room, (c.write a).depth < room → Reads (c.ofText room) (c.write a) a

mutual

/-- The value can be read back from what the shape writes. -/
def Shape.Faithful : {α : Type} → Shape α → α → Prop
  | _, .int32, _ => True
  | _, .int64, _ => True
  | _, .natural, n => n ≤ Json.Numeral.maxUnsigned
  | _, .bool, _ => True
  | _, .string, _ => True
  | _, .character, _ => True
  | _, .option item, value => ∀ a, value = some a → item.Faithful a ∧ item.write a ≠ .null
  | _, .list item, values => ∀ a ∈ values, item.Faithful a
  | _, .record _ fields, value => fields.names.Nodup ∧ fields.Faithful value
  | _, .tagged _ item, value => item.Faithful value
  | _, .choice variants, value => variants.tags.Nodup ∧ variants.Faithful value
  | _, .convert read back item, value => read (back value) = .ok value ∧ item.Faithful (back value)
  | _, .either _ read write, value => read (write value) = some value ∧ (write value).IsScalar
  | _, .codec c, value => c.RoundTrips value
  | _, .exhausted, _ => False

/-- The members that are written can be read back, and the others have the values of absent ones. -/
def Fields.Faithful : {α σ : Type} → Fields α σ → α → Prop
  | _, _, .nil, _ => True
  | _, _, .cons _ item whenAbsent _ isHidden rest, (a, b) =>
    (if isHidden a then whenAbsent = some a else item.Faithful a) ∧ rest.Faithful b

/-- All members can be read back. -/
def Fields.FaithfulItems : {α σ : Type} → Fields α σ → α → Prop
  | _, _, .nil, _ => True
  | _, _, .cons _ item _ _ _ rest, (a, b) => item.Faithful a ∧ rest.FaithfulItems b

/-- The value can be read back from what is written under its tag. -/
def Variants.Faithful : {α : Type} → Variants α → α → Prop
  | _, .nil, _ => False
  | _, .bare _ this isThis rest, value => if isThis value then value = this else rest.Faithful value
  | _, .holding _ item inject project rest, value =>
    match project value with
    | some b => inject b = value ∧ item.Faithful b
    | none => rest.Faithful value
  | _, .named _ _ fields inject project rest, value =>
    match project value with
    | some b => inject b = value ∧ fields.names.Nodup ∧ fields.Faithful b
    | none => rest.Faithful value
  | _, .positional _ _ fields inject project rest, value =>
    match project value with
    | some b => inject b = value ∧ fields.FaithfulItems b
    | none => rest.Faithful value

end

namespace Json

/-! ## Depth -/

theorem depth_le_depthItems {v : Json} {vs : List Json} (h : v ∈ vs) : v.depth ≤ depthItems vs := by
  induction vs with
  | nil => cases h
  | cons w ws ih =>
    rw [depthItems]
    rcases List.mem_cons.1 h with rfl | h
    · exact Nat.le_max_left ..
    · exact Nat.le_trans (ih h) (Nat.le_max_right ..)

/-- There is room to open a list or an object, and then for what is inside. -/
theorem exists_room {depth room : Nat} (h : depth + 1 < room) :
    ∃ inner, room = inner + 1 ∧ 0 < inner ∧ depth < inner :=
  ⟨room - 1, by omega, by omega, by omega⟩

theorem arr_head (items : List Json) : ∃ xs, (arr items).compactChars = '[' :: xs :=
  ⟨_, by rw [compactChars]; rfl⟩

theorem obj_head (members : List (String × Json)) : ∃ xs, (obj members).compactChars = '{' :: xs :=
  ⟨_, by rw [compactChars]; rfl⟩

/-! ## Scalars -/

theorem scalar_head {v : Json} (h : v.IsScalar) :
    ∃ x xs, v.compactChars = x :: xs ∧ Cursor.isJsonBlank x = false ∧ x ≠ '[' ∧ x ≠ '{' := by
  cases v with
  | null => exact ⟨'n', _, rfl, rfl, by decide, by decide⟩
  | bool b =>
    cases b with
    | true => exact ⟨'t', _, rfl, rfl, by decide, by decide⟩
    | false => exact ⟨'f', _, rfl, rfl, by decide, by decide⟩
  | int n =>
    obtain ⟨x, xs, heq, hx⟩ := head_int n
    refine ⟨x, xs, by rw [compactChars, heq], (number_head hx).1, ?_, ?_⟩
    · rintro rfl
      exact absurd hx (by decide)
    · rintro rfl
      exact absurd hx (by decide)
  | str s => exact ⟨'"', _, rfl, rfl, by decide, by decide⟩
  | float bits => cases h
  | arr items => cases h
  | obj members => cases h

theorem readValue_scalar {v : Json} (h : v.IsScalar) (room : Nat) {rest : List Char} (hrest : Stops rest)
    (i : Nat) : ∃ j, readValue room ⟨v.compactChars ++ rest, i⟩ = .ok (v, ⟨rest, j⟩) := by
  obtain ⟨j, hj⟩ := (reads_readScalar h).takes rest i hrest
  obtain ⟨x, xs, heq, hblank, hlist, hobject⟩ := scalar_head h
  refine ⟨j, ?_⟩
  rw [heq, List.cons_append] at hj ⊢
  rw [readValue, readValueWith, Cursor.skipBlanks_cons hblank]
  split
  · next hhead => exact absurd (List.cons.inj hhead).1 hlist
  · next hhead => exact absurd (List.cons.inj hhead).1 hobject
  · exact hj

end Json

namespace Shape

variable {α : Type}

theorem reads_scalar {expected : String} {decode : Json → Except Complaint α} {v : Json} {a : α}
    (hv : v.IsScalar) (ha : decode v = .ok a) : Reads (readScalar expected decode) v a := by
  refine ⟨hv.notFloat, ?_⟩
  intro rest i hrest
  obtain ⟨j, hj⟩ := (Json.reads_readScalar hv).takes rest i hrest
  obtain ⟨x, xs, heq, hblank, hlist, hobject⟩ := Json.scalar_head hv
  refine ⟨j, ?_⟩
  rw [heq, List.cons_append] at hj ⊢
  rw [readScalar, Cursor.skipBlanks_cons hblank]
  split
  · next hhead => exact absurd (List.cons.inj hhead).1 hlist
  · next hhead => exact absurd (List.cons.inj hhead).1 hobject
  · rw [hj]
    simp only [ha]

theorem reads_none {item : Cursor → Reading α} : Reads (readOption item) .null none := by
  refine ⟨rfl, ?_⟩
  intro rest i _
  exact Json.literal_append 'n' "ull" none rest i

theorem reads_some {item : Cursor → Reading α} {v : Json} {a : α} (h : Reads item v a)
    (hnull : v ≠ .null) : Reads (readOption item) v (some a) := by
  refine ⟨h.notFloat, ?_⟩
  intro rest i hrest
  obtain ⟨j, hj⟩ := h.takes rest i hrest
  obtain ⟨x, xs, heq, hblank, -, hx⟩ := Json.head_compactChars h.notFloat
  refine ⟨j, ?_⟩
  rw [heq, List.cons_append] at hj ⊢
  rw [readOption, Cursor.skipBlanks_cons hblank]
  split
  · next hhead => exact absurd (List.cons.inj hhead).1 (hx hnull)
  · rw [hj]

/-- The only member of a tagged object is read back, up to the closing brace. -/
theorem readTagged_membersText {tag : String} {item : Cursor → Reading α} {v : Json} {a : α}
    (h : Reads item v a) (rest : List Char) (i : Nat) :
    ∃ j, readTagged tag item ⟨Json.membersText true [(tag, v)] ++ '}' :: rest, i⟩ =
      .ok (a, ⟨'}' :: rest, j⟩) := by
  obtain ⟨c, k, hnext, hname, -⟩ := Cursor.nextMember_membersText true (tag, v) [] ('}' :: rest) i
  obtain ⟨j, hj⟩ := h.takes ('}' :: rest) (k + 1) (.inr (.inr rfl))
  have hj : item ⟨v.compactChars ++ (Json.membersTail [] ++ '}' :: rest), k + 1⟩ =
      .ok (a, ⟨'}' :: rest, j⟩) := hj
  refine ⟨j, ?_⟩
  rw [readTagged, hnext]
  simp only [hname]
  rw [if_neg (fun hne => hne rfl), List.cons_append, Cursor.colon_cons]
  simp only [hj, Cursor.nextMember_close]

end Shape

/-! ## Members -/

namespace Fields

/-- The state in which the members that are written have been read. -/
def seen : {α σ : Type} → Fields α σ → α → σ
  | _, _, .nil, _ => ()
  | _, _, .cons _ _ _ _ isHidden rest, (a, b) => (if isHidden a then Option.none else some a, rest.seen b)

theorem complete_seen : {α σ : Type} → (fields : Fields α σ) → {value : α} → fields.Faithful value →
    fields.complete (fields.seen value) = .ok value
  | _, _, .nil, (), _ => rfl
  | _, _, .cons _ _ whenAbsent _ isHidden rest, (a, b), h => by
    rw [Faithful] at h
    obtain ⟨ha, hb⟩ := h
    have hrest := complete_seen rest hb
    cases hhidden : isHidden a with
    | true =>
      rw [hhidden, if_pos rfl] at ha
      simp [seen, complete, hhidden, ha, hrest]
    | false => simp [seen, complete, hhidden, hrest]

theorem names_writeMembers : {α σ : Type} → (fields : Fields α σ) → (value : α) →
    ∀ m ∈ fields.writeMembers value, m.1 ∈ fields.names
  | _, _, .nil, _ => by
    intro m hm
    cases hm
  | _, _, .cons name item _ _ isHidden rest, (a, b) => by
    intro m hm
    rw [writeMembers] at hm
    rw [names]
    split at hm
    · exact List.mem_cons_of_mem name (names_writeMembers rest b m hm)
    · rcases List.mem_cons.1 hm with rfl | hm
      · exact List.mem_cons_self
      · exact List.mem_cons_of_mem name (names_writeMembers rest b m hm)

/-- A member before the others does not disturb them. -/
theorem steps_cons {α β σ : Type} {name : String} {item : Shape α} {whenAbsent whenShort : Option α}
    {isHidden : α → Bool} {rest : Fields β σ} {room : Nat} {ms : List (String × Json)} {s s' : σ}
    (h : Steps (rest.setText room) ms s s') (hname : ∀ m ∈ ms, m.1 ≠ name) (x : Option α) :
    Steps ((cons name item whenAbsent whenShort isHidden rest).setText room) ms (x, s) (x, s') := by
  induction h with
  | nil => exact .nil
  | cons first later ih =>
    obtain ⟨hne, hlater⟩ := List.forall_mem_cons.1 hname
    refine .cons ?_ (ih hlater)
    intro text i htext
    obtain ⟨j, hj⟩ := first text i htext
    refine ⟨j, ?_⟩
    rw [setText, if_neg hne, hj]
    rfl

variable {α σ : Type}

/-- What is read of a record inside its braces. -/
def readInside (fields : Fields α σ) (room : Nat) (c : Cursor) : Reading α :=
  match Json.readMembers (fields.setText room) true fields.none c with
  | .error f => .error f
  | .ok (state, c) =>
    match fields.complete state with
    | .ok a => .ok (a, c)
    | .error name => .error (.loose (.missingField name) c)

/-- A record is read from an object when its members are, and they make up the record. -/
theorem reads_read {fields : Fields α σ} {title : String} {ms : List (String × Json)} {state : σ} {value : α}
    {room : Nat}
    (h : ∀ inner, Json.depthMembers ms < inner → Steps (fields.setText inner) ms fields.none state)
    (hcomplete : fields.complete state = .ok value) (hroom : (Json.obj ms).depth < room) :
    Reads (fields.read title fields.setText fields.itemsText room) (.obj ms) value := by
  refine ⟨rfl, ?_⟩
  intro rest i _
  rw [Json.depth] at hroom
  obtain ⟨inner, rfl, hinner, hdepth⟩ := Json.exists_room hroom
  have hinside : ∀ rest i, ∃ j, fields.readInside inner ⟨Json.membersText true ms ++ '}' :: rest, i⟩ =
      .ok (value, ⟨'}' :: rest, j⟩) := by
    intro rest i
    obtain ⟨j, hj⟩ := (h inner hdepth).readMembers_membersText true rest i
    exact ⟨j, by simp only [readInside, hj, hcomplete]⟩
  obtain ⟨j, hj⟩ := Json.readObject_obj hinner fields.readInside hinside rest i
  obtain ⟨xs, hxs⟩ := Json.obj_head ms
  refine ⟨j, ?_⟩
  rw [hxs, List.cons_append] at hj ⊢
  rw [read, Cursor.skipBlanks_cons (by decide)]
  exact hj

/-- The members are read from the items in order, up to the closing bracket. -/
def ReadsItems (fields : Fields α σ) (vs : List Json) (value : α) : Prop :=
  ∀ room, Json.depthItems vs < room → ∀ expected n first rest i, ∃ j,
    fields.itemsText room expected n first ⟨Json.itemsText first vs ++ ']' :: rest, i⟩ =
      .ok (value, ⟨']' :: rest, j⟩)

/-- A list is read when its items are read as the members. -/
theorem ReadsItems.readList_arr {fields : Fields α σ} {vs : List Json} {value : α}
    (h : fields.ReadsItems vs value) (expected : String) {room : Nat} (hroom : (Json.arr vs).depth < room)
    (rest : List Char) (i : Nat) :
    ∃ j, Json.readList room ⟨(Json.arr vs).compactChars ++ rest, i⟩
      (fun room c => fields.itemsText room expected 0 true c) = .ok (value, ⟨rest, j⟩) := by
  rw [Json.depth] at hroom
  obtain ⟨inner, rfl, hinner, hdepth⟩ := Json.exists_room hroom
  exact Json.readList_arr hinner _ (h inner hdepth expected 0 true) rest i

/-- A record is read from an array when its members are. -/
theorem reads_readArray {fields : Fields α σ} {title : String} {vs : List Json} {value : α} {room : Nat}
    (h : fields.ReadsItems vs value) (hroom : (Json.arr vs).depth < room) :
    Reads (fields.readArray title fields.itemsText room) (.arr vs) value := by
  refine ⟨rfl, ?_⟩
  intro rest i _
  obtain ⟨j, hj⟩ := h.readList_arr (counted title fields.count) hroom rest i
  obtain ⟨xs, hxs⟩ := Json.arr_head vs
  refine ⟨j, ?_⟩
  rw [hxs, List.cons_append] at hj ⊢
  rw [readArray, Cursor.skipBlanks_cons (by decide)]
  exact hj

end Fields

/-! ## Families -/

/-- What is written under the tag is read back with the room inside the object, or the tag alone is. -/
inductive Variants.ReadsAs {α : Type} (read : Option Nat → Cursor → Reading α) (room : Nat) (tag : String)
    (value : α) : Json → Prop
  | bare (h : ∀ c, read none c = .ok (value, c)) : ReadsAs read room tag value (.str tag)
  | under {payload : Json} (h : payload.depth < room → Reads (read (some room)) payload value) :
    ReadsAs read room tag value (.obj [(tag, payload)])

/-- A family reads a value back with a tag before its others, if it does so without. -/
theorem Variants.reads_later {α : Type} {rest : Variants α} {tag : String} {value : α} {v : Json}
    {textOfTag : String → Option (Option Nat → Cursor → Reading α)} (htags : (tag :: rest.tags).Nodup)
    (hlater : ∀ name, name ≠ tag → textOfTag name = rest.textOfTag name)
    (h : ∃ tag read, tag ∈ rest.tags ∧ rest.textOfTag tag = some read ∧
      ∀ room, ReadsAs read room tag value v) :
    ∃ tag' read, tag' ∈ tag :: rest.tags ∧ textOfTag tag' = some read ∧
      ∀ room, ReadsAs read room tag' value v := by
  obtain ⟨tag', read, hmem, hread, hreads⟩ := h
  have hne : tag' ≠ tag := fun heq => (List.nodup_cons.1 htags).1 (heq ▸ hmem)
  exact ⟨tag', read, List.mem_cons_of_mem tag hmem, by rw [hlater tag' hne, hread], hreads⟩

/-- What is read may be changed afterwards. -/
theorem Json.Reads.map {α β : Type} {read : Cursor → Reading α} {v : Json} {a : α} (h : Reads read v a)
    (f : α → β) : Reads (fun c => Json.mapReading f (read c)) v (f a) := by
  refine ⟨h.notFloat, ?_⟩
  intro rest i hrest
  obtain ⟨j, hj⟩ := h.takes rest i hrest
  exact ⟨j, by rw [hj]; rfl⟩

namespace Shape

variable {α : Type}

theorem closeVariant_close (rest : List Char) (i : Nat) :
    closeVariant ⟨'}' :: rest, i⟩ = .ok ⟨rest, i + 1⟩ := by
  rw [closeVariant, Cursor.skipBlanks_cons (by decide)]
  rfl

theorem readTag_stringText (tags : List String) {β : Type} {payload : String → Option β} {tag : String}
    {b : β} (h : payload tag = some b) (rest : List Char) (i : Nat) :
    ∃ j, readTag tags payload ⟨Json.stringText tag ++ rest, i⟩ = .ok (b, ⟨rest, j⟩) := by
  obtain ⟨j, hj⟩ := Cursor.string_stringText tag rest i
  obtain ⟨xs, hxs⟩ : ∃ xs, Json.stringText tag ++ rest = '"' :: xs := ⟨_, rfl⟩
  refine ⟨j, ?_⟩
  rw [hxs] at hj ⊢
  rw [readTag, Cursor.skipBlanks_cons (by decide)]
  simp only [hj, h]

/-- A value of a family is read back when the reader under its tag does so. -/
theorem reads_readChoice {tags : List String} {payload : String → Option (Option Nat → Cursor → Reading α)}
    {room : Nat} {tag : String} {read : Option Nat → Cursor → Reading α} {value : α} {v : Json}
    (htag : payload tag = some read) (h : ∀ inner, Variants.ReadsAs read inner tag value v)
    (hroom : v.depth < room) : Reads (readChoice tags payload room) v value := by
  -- Whether the value is a bare tag does not depend on room, so any room tells.
  cases h 0 with
  | bare hbare =>
    refine ⟨rfl, ?_⟩
    intro rest i _
    obtain ⟨j, hj⟩ := readTag_stringText tags htag rest i
    obtain ⟨xs, hxs⟩ : ∃ xs, Json.stringText tag ++ rest = '"' :: xs := ⟨_, rfl⟩
    refine ⟨j, ?_⟩
    rw [Json.compactChars]
    rw [hxs] at hj ⊢
    rw [readChoice, Cursor.skipBlanks_cons (by decide)]
    simp only [hj, hbare]
  | @under inside _ =>
    refine ⟨rfl, ?_⟩
    intro rest i _
    rw [Json.depth, Json.depthMembers, Json.depthMembers, Nat.max_zero] at hroom
    obtain ⟨inner, rfl, hinner, hdepth⟩ := Json.exists_room hroom
    cases h inner with
    | under hunder =>
      have htext : (Json.obj [(tag, inside)]).compactChars ++ rest =
          '{' :: (Json.stringText tag ++ (':' :: (inside.compactChars ++ '}' :: rest))) := by
        simp [Json.compactChars, Json.compactMembers]
      obtain ⟨k, hk⟩ := readTag_stringText tags htag (':' :: (inside.compactChars ++ '}' :: rest))
        (i + '{'.utf8Size)
      obtain ⟨j, hj⟩ := (hunder hdepth).takes ('}' :: rest) (k + 1) (.inr (.inr rfl))
      refine ⟨j + 1, ?_⟩
      rw [htext, readChoice, Cursor.skipBlanks_cons (by decide)]
      show Json.entering (inner + 1) ⟨'{' :: _, i⟩ _ = _
      rw [Json.entering_succ hinner, Cursor.eat_cons, hk]
      simp only [Cursor.colon_cons, hj, closeVariant_close]

end Shape

/-! ## Shapes -/

namespace Shape

theorem reads_list {α : Type} {item : Shape α} {vs : List Json} {as : List α} {room : Nat}
    (h : ∀ inner, Json.depthItems vs < inner → List.Forall₂ (Reads (item.ofText inner)) vs as)
    (hroom : (Json.arr vs).depth < room) : Reads ((Shape.list item).ofText room) (.arr vs) as := by
  refine ⟨rfl, ?_⟩
  intro rest i _
  rw [Json.depth] at hroom
  obtain ⟨inner, rfl, hinner, hdepth⟩ := Json.exists_room hroom
  obtain ⟨j, hj⟩ := Json.readList_arr hinner (fun room c => Json.readItems (item.ofText room) true c)
    (Json.readItems_itemsText (h inner hdepth) true) rest i
  obtain ⟨xs, hxs⟩ := Json.arr_head vs
  refine ⟨j, ?_⟩
  rw [hxs, List.cons_append] at hj ⊢
  rw [Shape.ofText, Cursor.skipBlanks_cons (by decide)]
  exact hj

theorem reads_tagged {α : Type} {tag : String} {item : Shape α} {v : Json} {a : α} {room : Nat}
    (h : ∀ inner, v.depth < inner → Reads (item.ofText inner) v a)
    (hroom : (Json.obj [(tag, v)]).depth < room) :
    Reads ((Shape.tagged tag item).ofText room) (.obj [(tag, v)]) a := by
  refine ⟨rfl, ?_⟩
  intro rest i _
  rw [Json.depth, Json.depthMembers, Json.depthMembers, Nat.max_zero] at hroom
  obtain ⟨inner, rfl, hinner, hdepth⟩ := Json.exists_room hroom
  obtain ⟨j, hj⟩ := Json.readObject_obj hinner (fun room c => Shape.readTagged tag (item.ofText room) c)
    (Shape.readTagged_membersText (h inner hdepth)) rest i
  obtain ⟨xs, hxs⟩ := Json.obj_head [(tag, v)]
  refine ⟨j, ?_⟩
  rw [hxs, List.cons_append] at hj ⊢
  rw [Shape.ofText, Cursor.skipBlanks_cons (by decide)]
  exact hj

theorem reads_convert {α β : Type} {read : α → Except String β} {back : β → α} {item : Shape α} {v : Json}
    {a : α} {b : β} {room : Nat} (h : Reads (item.ofText room) v a) (hb : read a = .ok b) :
    Reads ((Shape.convert read back item).ofText room) v b := by
  refine ⟨h.notFloat, ?_⟩
  intro rest i hrest
  obtain ⟨j, hj⟩ := h.takes rest i hrest
  refine ⟨j, ?_⟩
  rw [Shape.ofText, hj]
  simp only [hb]

theorem reads_either {α : Type} {title : String} {read : Json → Option α} {write : α → Json} {v : Json}
    {a : α} {room : Nat} (hv : v.IsScalar) (ha : read v = some a) :
    Reads ((Shape.either title read write).ofText room) v a := by
  refine ⟨hv.notFloat, ?_⟩
  intro rest i hrest
  obtain ⟨j, hj⟩ := Json.readValue_scalar hv _ hrest i
  refine ⟨j, ?_⟩
  rw [Shape.ofText, hj]
  simp only [ha]

theorem isInt32_toInt (n : Int32) : isInt32 n.toInt = true := by
  rw [isInt32, Bool.and_eq_true]
  exact ⟨decide_eq_true n.minValue_le_toInt, decide_eq_true n.toInt_le⟩

theorem isInt64_toInt (n : Int64) : isInt64 n.toInt = true := by
  rw [isInt64, Bool.and_eq_true]
  exact ⟨decide_eq_true n.minValue_le_toInt, decide_eq_true n.toInt_le⟩

theorem fitsWord_int32 (n : Int32) : Json.FitsWord n.toInt := by
  have hlower := n.le_toInt
  have hupper := n.toInt_lt
  exact ⟨by omega, by omega⟩

theorem fitsWord_int64 (n : Int64) : Json.FitsWord n.toInt := by
  have hlower := n.le_toInt
  have hupper := n.toInt_lt
  exact ⟨by omega, by omega⟩

end Shape

-- The recursion is that of the readers, over the shape. Room is left general: it shrinks by one wherever a
-- list or an object is opened, as the depth of what is inside does.
mutual

/-- **What a shape writes is read back.** Text of a value that the shape is faithful to is read as that
value, if there is room for its depth. -/
theorem Shape.reads : {α : Type} → (s : Shape α) → {a : α} → {room : Nat} → s.Faithful a →
    (s.write a).depth < room → Reads (s.ofText room) (s.write a) a
  | _, .int32, n, _, _, _ => by
    refine Shape.reads_scalar (Shape.fitsWord_int32 n) ?_
    rw [Shape.write, Shape.int32?, if_pos (Shape.isInt32_toInt n), Int32.ofInt_toInt]
  | _, .int64, n, _, _, _ => by
    refine Shape.reads_scalar (Shape.fitsWord_int64 n) ?_
    rw [Shape.write, Shape.int64?, if_pos (Shape.isInt64_toInt n), Int64.ofInt_toInt]
  | _, .natural, n, _, h, _ => by
    have hn : n ≤ 0xFFFFFFFFFFFFFFFF := h
    have hword : Json.FitsWord n := ⟨by omega, by omega⟩
    refine Shape.reads_scalar hword ?_
    rw [Shape.write, Shape.natural?, if_pos (Int.natCast_nonneg n), Int.toNat_natCast]
  | _, .bool, b, _, _, _ => Shape.reads_scalar trivial rfl
  | _, .string, s, _, _, _ => Shape.reads_scalar trivial rfl
  | _, .character, c, _, _, _ => by
    refine Shape.reads_scalar trivial ?_
    simp [Shape.write, Shape.character?]
  | _, .option item, none, _, _, _ => Shape.reads_none
  | _, .option item, some a, _, h, hroom => by
    obtain ⟨ha, hnull⟩ := h a rfl
    exact Shape.reads_some (Shape.reads item ha hroom) hnull
  | _, .list item, as, room, h, hroom => by
    refine Shape.reads_list (fun inner hinner => ?_) hroom
    rw [List.forall₂_map_left_iff, List.forall₂_same]
    intro a ha
    exact Shape.reads item (h a ha)
      (Nat.lt_of_le_of_lt (Json.depth_le_depthItems (List.mem_map_of_mem ha)) hinner)
  | _, .record title fields, a, _, h, hroom => by
    exact Fields.reads_read (fun inner hinner => Fields.steps fields h.1 h.2 hinner)
      (Fields.complete_seen fields h.2) hroom
  | _, .tagged tag item, a, room, h, hroom =>
    Shape.reads_tagged (fun inner hinner => Shape.reads item h hinner) hroom
  | _, .choice variants, a, _, h, hroom => by
    obtain ⟨tag, read, -, htag, hread⟩ := Variants.reads variants h.1 h.2
    exact Shape.reads_readChoice htag hread hroom
  | _, .convert read back item, a, _, h, hroom => Shape.reads_convert (Shape.reads item h.2 hroom) h.1
  | _, .either title read write, a, _, h, _ => Shape.reads_either h.2 h.1
  | _, .codec c, a, room, h, hroom => h.reads room hroom
  | _, .exhausted, _, _, h, _ => by cases h

/-- The members that are written are read one after the other. -/
theorem Fields.steps : {α σ : Type} → (fields : Fields α σ) → {value : α} → {room : Nat} →
    fields.names.Nodup → fields.Faithful value →
    Json.depthMembers (fields.writeMembers value) < room →
    Steps (fields.setText room) (fields.writeMembers value) fields.none (fields.seen value)
  | _, _, .nil, (), _, _, _, _ => .nil
  | _, _, .cons name item whenAbsent whenShort isHidden rest, (a, b), room, hnames, h, hroom => by
    rw [Fields.names] at hnames
    obtain ⟨hname, hrest⟩ := List.nodup_cons.1 hnames
    have hother : ∀ m ∈ rest.writeMembers b, m.1 ≠ name := fun m hm heq =>
      hname (heq ▸ Fields.names_writeMembers rest b m hm)
    rw [Fields.Faithful] at h
    rw [Fields.writeMembers] at hroom ⊢
    rw [Fields.seen, Fields.none]
    cases hhidden : isHidden a with
    | true =>
      -- The text has nothing for a hidden member; its value comes in when the record is completed.
      rw [hhidden, if_pos rfl] at hroom
      rw [if_pos rfl, if_pos rfl]
      exact Fields.steps_cons (Fields.steps rest hrest h.2 hroom) hother none
    | false =>
      rw [hhidden, if_neg Bool.false_ne_true] at h hroom
      rw [if_neg Bool.false_ne_true, if_neg Bool.false_ne_true]
      rw [Json.depthMembers, Nat.max_lt] at hroom
      refine .cons ?_ (Fields.steps_cons (Fields.steps rest hrest h.2 hroom.2) hother (some a))
      intro text i htext
      obtain ⟨j, hj⟩ := (Shape.reads item h.1 hroom.1).takes text (i + 1) htext
      refine ⟨j, ?_⟩
      rw [Fields.setText, if_pos rfl, List.cons_append, Cursor.colon_cons]
      simp only [Option.isSome_none, Bool.false_eq_true, if_false, hj]
      rfl

/-- The members of an array are read in order, up to the closing bracket. -/
theorem Fields.itemsText_reads : {α σ : Type} → (fields : Fields α σ) → {value : α} →
    fields.FaithfulItems value → fields.ReadsItems (fields.writeItems value) value
  | _, _, .nil, (), _ => by
    intro room _ expected n first rest i
    refine ⟨i, ?_⟩
    rw [Fields.itemsText, Fields.writeItems, Json.itemsText_nil, List.nil_append]
  | _, _, .cons name item whenAbsent whenShort isHidden rest, (a, b), h => by
    intro room hroom expected n first text i
    rw [Fields.FaithfulItems] at h
    rw [Fields.writeItems, Json.depthItems, Nat.max_lt] at hroom
    have hitem := Shape.reads item h.1 hroom.1
    obtain ⟨k, hnext, -⟩ :=
      Cursor.nextItem_itemsText first hitem.notFloat (rest.writeItems b) (']' :: text) i
    obtain ⟨l, hl⟩ := hitem.takes _ k (Json.stops_itemsTail (rest.writeItems b) text)
    obtain ⟨j, hj⟩ := Fields.itemsText_reads rest h.2 room hroom.2 expected (n + 1) false text l
    refine ⟨j, ?_⟩
    rw [Fields.itemsText, Fields.writeItems, hnext]
    simp only [hl]
    exact congrArg (Json.mapReading (a, ·)) hj

/-- The tag that a value is written under leads to a reader that gives the value back. -/
theorem Variants.reads : {α : Type} → (variants : Variants α) → {value : α} → variants.tags.Nodup →
    variants.Faithful value →
    ∃ tag read, tag ∈ variants.tags ∧ variants.textOfTag tag = some read ∧
      ∀ room, Variants.ReadsAs read room tag value (variants.write value)
  | _, .nil, _, _, h => by cases h
  | _, .bare tag this isThis rest, value, htags, h => by
    rw [Variants.tags] at htags
    rw [Variants.Faithful] at h
    rw [Variants.write, Variants.tags]
    cases hthis : isThis value with
    | true =>
      rw [hthis, if_pos rfl] at h
      subst h
      refine ⟨tag, _, List.mem_cons_self, by rw [Variants.textOfTag, if_pos rfl], fun room => ?_⟩
      exact .bare fun c => rfl
    | false =>
      -- The tag of a later variant is none of the earlier ones, so the search goes past them.
      rw [hthis, if_neg Bool.false_ne_true] at h
      exact Variants.reads_later htags (by intro name hname; rw [Variants.textOfTag, if_neg hname])
        (Variants.reads rest (List.nodup_cons.1 htags).2 h)
  | _, .holding tag item inject project rest, value, htags, h => by
    rw [Variants.tags] at htags
    rw [Variants.Faithful] at h
    rw [Variants.write, Variants.tags]
    cases hproject : project value with
    | some b =>
      simp only [hproject] at h ⊢
      obtain ⟨rfl, hb⟩ := h
      refine ⟨tag, _, List.mem_cons_self, by rw [Variants.textOfTag, if_pos rfl], fun room => ?_⟩
      exact .under fun hroom => (Shape.reads item hb hroom).map inject
    | none =>
      simp only [hproject] at h ⊢
      exact Variants.reads_later htags (by intro name hname; rw [Variants.textOfTag, if_neg hname])
        (Variants.reads rest (List.nodup_cons.1 htags).2 h)
  | _, .named tag title fields inject project rest, value, htags, h => by
    rw [Variants.tags] at htags
    rw [Variants.Faithful] at h
    rw [Variants.write, Variants.tags]
    cases hproject : project value with
    | some b =>
      simp only [hproject] at h ⊢
      obtain ⟨rfl, hnames, hb⟩ := h
      refine ⟨tag, _, List.mem_cons_self, by rw [Variants.textOfTag, if_pos rfl], fun room => ?_⟩
      exact .under fun hroom =>
        (Fields.reads_read (fun inner hinner => Fields.steps fields hnames hb hinner)
          (Fields.complete_seen fields hb) hroom).map inject
    | none =>
      simp only [hproject] at h ⊢
      exact Variants.reads_later htags (by intro name hname; rw [Variants.textOfTag, if_neg hname])
        (Variants.reads rest (List.nodup_cons.1 htags).2 h)
  | _, .positional tag title fields inject project rest, value, htags, h => by
    rw [Variants.tags] at htags
    rw [Variants.Faithful] at h
    rw [Variants.write, Variants.tags]
    cases hproject : project value with
    | some b =>
      simp only [hproject] at h ⊢
      obtain ⟨rfl, hb⟩ := h
      refine ⟨tag, _, List.mem_cons_self, by rw [Variants.textOfTag, if_pos rfl], fun room => ?_⟩
      exact .under fun hroom =>
        (Fields.reads_readArray (Fields.itemsText_reads fields hb) hroom).map inject
    | none =>
      simp only [hproject] at h ⊢
      exact Variants.reads_later htags (by intro name hname; rw [Variants.textOfTag, if_neg hname])
        (Variants.reads rest (List.nodup_cons.1 htags).2 h)

end

/-- A whole text is read. -/
theorem Shape.parse_of_reads {α : Type} {s : Shape α} {v : Json} {a : α}
    (h : Reads (s.ofText Json.maxRoom) v a) : s.parse v.compact = .ok a := by
  obtain ⟨j, hj⟩ := h.takes [] 0 trivial
  have htext : Cursor.ofString v.compact = ⟨v.compactChars ++ [], 0⟩ := by
    simp [Cursor.ofString, Json.compact]
  rw [Shape.parse, htext, hj]
  rfl

/-- A whole text is read back. -/
theorem Shape.parse_write {α : Type} {s : Shape α} {a : α} (h : s.Faithful a)
    (hdepth : (s.write a).depth < Json.maxRoom) : s.parse (s.write a).compact = .ok a :=
  Shape.parse_of_reads (Shape.reads s h hdepth)

end Routine
