import Routine.Codec.Datum
import Routine.Hydration.Edit
import Routine.Proofs.ShapeText

/-!
# Leaves and data can be read back

The shapes of leaves, types and data are faithful (`Shape.Faithful`) to what they describe, up to two
conditions. The mode of a leaf is written as its code, and two modes can have one code: `other` with a
code that belongs to a mode with a name. And the parsed SQL in a leaf has to be read back by the codec of
its kind (`Slot.RoundTrips`).

Whether a member of a record is faithful depends only on its value. The lemmas about members say so for
each kind of member, and with them a record falls apart into its members by rewriting.
-/

namespace Routine

/-! ## Values that are not null -/

theorem Variants.write_ne_null : {α : Type} → (v : Variants α) → {a : α} → v.Faithful a →
    v.write a ≠ .null
  | _, .nil, _, h => h.elim
  | _, .bare _ _ isThis rest, a, h => by
    rw [Variants.Faithful] at h
    rw [Variants.write]
    cases hthis : isThis a with
    | true => exact Json.noConfusion
    | false => exact rest.write_ne_null (by simpa [hthis] using h)
  | _, .holding _ _ _ project rest, a, h => by
    rw [Variants.Faithful] at h
    rw [Variants.write]
    cases hproject : project a with
    | some b => exact Json.noConfusion
    | none => exact rest.write_ne_null (by simpa only [hproject] using h)
  | _, .named _ _ _ _ project rest, a, h => by
    rw [Variants.Faithful] at h
    rw [Variants.write]
    cases hproject : project a with
    | some b => exact Json.noConfusion
    | none => exact rest.write_ne_null (by simpa only [hproject] using h)
  | _, .positional _ _ _ _ project rest, a, h => by
    rw [Variants.Faithful] at h
    rw [Variants.write]
    cases hproject : project a with
    | some b => exact Json.noConfusion
    | none => exact rest.write_ne_null (by simpa only [hproject] using h)

/-- Nothing that can be read back is written as null. -/
def Shape.Solid {α : Type} (s : Shape α) : Prop :=
  ∀ a, s.Faithful a → s.write a ≠ .null

namespace Shape

variable {α : Type}

@[simp] theorem solid_int32 : Shape.int32.Solid := fun _ _ => Json.noConfusion
@[simp] theorem solid_natural : Shape.natural.Solid := fun _ _ => Json.noConfusion
@[simp] theorem solid_string : Shape.string.Solid := fun _ _ => Json.noConfusion
@[simp] theorem solid_character : Shape.character.Solid := fun _ _ => Json.noConfusion

@[simp] theorem solid_tagged (tag : String) (item : Shape α) : (Shape.tagged tag item).Solid :=
  fun _ _ => Json.noConfusion

@[simp] theorem solid_choice (v : Variants α) : (Shape.choice v).Solid :=
  fun _ h => v.write_ne_null h.2

@[simp] theorem solid_codec (c : Codec α) : (Shape.codec c).Solid := fun _ h => h.notNull

@[simp] theorem faithful_tagged {tag : String} {item : Shape α} {a : α} :
    (Shape.tagged tag item).Faithful a ↔ item.Faithful a := Iff.rfl

theorem faithful_option {item : Shape α} (hsolid : item.Solid) {value : Option α} :
    (Shape.option item).Faithful value ↔ ∀ a, value = some a → item.Faithful a :=
  ⟨fun h a ha => (h a ha).1, fun h a ha => ⟨h a ha, hsolid a (h a ha)⟩⟩

@[simp] theorem faithful_int32 (n : Int32) : Shape.int32.Faithful n := trivial
@[simp] theorem faithful_int64 (n : Int64) : Shape.int64.Faithful n := trivial
@[simp] theorem faithful_bool (b : Bool) : Shape.bool.Faithful b := trivial
@[simp] theorem faithful_string (s : String) : Shape.string.Faithful s := trivial
@[simp] theorem faithful_character (c : Char) : Shape.character.Faithful c := trivial

end Shape

/-! ## Members -/

namespace Fields

variable {α β σ : Type} {name : String} {item : Shape α} {rest : Fields β σ} {b : β}

@[simp] theorem names_nil : Fields.nil.names = [] := rfl
@[simp] theorem names_required : (required name item rest).names = name :: rest.names := rfl
@[simp] theorem names_nullable : (nullable name item rest).names = name :: rest.names := rfl
@[simp] theorem names_optional : (optional name item rest).names = name :: rest.names := rfl
@[simp] theorem names_flag : (flag name rest).names = name :: rest.names := rfl
@[simp] theorem names_nonzero : (nonzero name rest).names = name :: rest.names := rfl
@[simp] theorem names_line : (line rest).names = "lineno" :: rest.names := rfl

@[simp] theorem names_defaulted {a : α} : (defaulted name item a rest).names = name :: rest.names := rfl

@[simp] theorem faithful_nil (u : Unit) : Fields.nil.Faithful u := trivial
@[simp] theorem faithfulItems_nil (u : Unit) : Fields.nil.FaithfulItems u := trivial

@[simp] theorem faithful_required {a : α} :
    (required name item rest).Faithful (a, b) ↔ item.Faithful a ∧ rest.Faithful b := Iff.rfl

@[simp] theorem faithfulItems_required {a : α} :
    (required name item rest).FaithfulItems (a, b) ↔ item.Faithful a ∧ rest.FaithfulItems b := Iff.rfl

@[simp] theorem faithful_defaulted {default a : α} :
    (defaulted name item default rest).Faithful (a, b) ↔ item.Faithful a ∧ rest.Faithful b := Iff.rfl

@[simp] theorem faithful_nullable (hsolid : item.Solid) {a : Option α} :
    (nullable name item rest).Faithful (a, b) ↔ (∀ x, a = some x → item.Faithful x) ∧ rest.Faithful b :=
  and_congr_left fun _ => Shape.faithful_option hsolid

/-- A value that is not there is not written, and it is what an absent member is read as. -/
@[simp] theorem faithful_optional (hsolid : item.Solid) {a : Option α} :
    (optional name item rest).Faithful (a, b) ↔
      (∀ x, a = some x → item.Faithful x) ∧ rest.Faithful b := by
  refine and_congr_left fun _ => ?_
  cases a with
  | none => simp
  | some x => exact Shape.faithful_option hsolid

@[simp] theorem faithful_flag {a : Bool} : (flag name rest).Faithful (a, b) ↔ rest.Faithful b := by
  cases a <;> simp [flag, Fields.Faithful]

@[simp] theorem faithful_nonzero {n : Int32} :
    (nonzero name rest).Faithful (n, b) ↔ rest.Faithful b := by
  by_cases hn : n = 0
  · simp [nonzero, Fields.Faithful, hn]
  · simp [nonzero, Fields.Faithful, hn]

@[simp] theorem faithful_line {n : Int32} : (line rest).Faithful (n, b) ↔ rest.Faithful b := by
  simp [line]

end Fields

/-! ## Leaves and types -/

/-- Modes come back from their codes, unless a mode with a name has the code of one that has none. -/
theorem ParseMode.ofCode_code {m : ParseMode} (h : m.IsKnown) : ofCode m.code = m := by
  cases m with
  | other code =>
    -- The codes of the modes with names are those from 0 to 5.
    have hne : ∀ k : Int32, 0 ≤ k → k ≤ 5 → code ≠ k := by
      rintro k hlow hhigh rfl
      exact h ⟨hlow, hhigh⟩
    show ofCode code = other code
    rw [ofCode, if_neg (hne 0 (by decide) (by decide)), if_neg (hne 1 (by decide) (by decide)),
      if_neg (hne 2 (by decide) (by decide)), if_neg (hne 3 (by decide) (by decide)),
      if_neg (hne 4 (by decide) (by decide)), if_neg (hne 5 (by decide) (by decide))]
  | _ => rfl

theorem ParseMode.faithful {m : ParseMode} (h : m.IsKnown) : ParseMode.shape.Faithful m :=
  ⟨congrArg Except.ok (ofCode_code h), trivial⟩

/-- The codecs read back the parsed SQL that hydration found. -/
def Content.RoundTrips (sql : Sql.Codecs) : Content → Prop
  | raw => True
  | statement t => sql.statement.RoundTrips t
  | expression t => sql.expression.RoundTrips t
  | assignment _ _ target value =>
    (∀ t, target = some t → sql.expression.RoundTrips t) ∧ ∀ t, value = some t → sql.expression.RoundTrips t

namespace Slot

/-- The codecs read back the parsed SQL of a leaf. -/
def RoundTrips (sql : Sql.Codecs) : Slot → Prop
  | leaf (.raw _ _) => True
  | leaf (.hydrated _ _ content) => content.RoundTrips sql
  | type (.raw _) => True
  | type (.hydrated _ t _) => sql.type.RoundTrips t

/-- The shapes are faithful to a leaf of either kind. -/
def Faithful (leafShape : Shape Leaf) (typeShape : Shape TypeRef) : Slot → Prop
  | leaf l => leafShape.Faithful l
  | type t => typeShape.Faithful t

variable {leafShape : Shape Leaf} {typeShape : Shape TypeRef}

@[simp] theorem faithful_leaf {l : Leaf} :
    (Slot.leaf l).Faithful leafShape typeShape ↔ leafShape.Faithful l := Iff.rfl

@[simp] theorem faithful_type {t : TypeRef} :
    (Slot.type t).Faithful leafShape typeShape ↔ typeShape.Faithful t := Iff.rfl

end Slot

section

variable {sql : Sql.Codecs}

theorem Content.faithful {captured : String} {mode : ParseMode} {content : Content} (hmode : mode.IsKnown)
    (h : content.RoundTrips sql) : (hydratedVariants sql).Faithful (captured, mode, content) := by
  have hmode := ParseMode.faithful hmode
  have hsolid : (Shape.codec sql.expression).Solid := Shape.solid_codec _
  cases content with
  | raw => exact ⟨rfl, by simp, trivial, hmode, trivial⟩
  | statement t | expression t => exact ⟨rfl, by simp, trivial, hmode, h, trivial⟩
  | assignment target value t u =>
    have ht := (Shape.faithful_option hsolid).2 h.1
    have hu := (Shape.faithful_option hsolid).2 h.2
    exact ⟨rfl, by simp, trivial, hmode, trivial, trivial, ht, hu, trivial⟩

theorem Leaf.faithful {l : Leaf} (hmode : l.mode.IsKnown) (h : (Slot.leaf l).RoundTrips sql) :
    (Leaf.shape sql).Faithful l := by
  refine ⟨by simp [Variants.tags], ?_⟩
  cases l with
  | raw text mode => exact ⟨rfl, by simp, trivial, ParseMode.faithful hmode, trivial⟩
  | hydrated captured mode content =>
    exact ⟨rfl, by simp [hydratedVariants, Variants.tags], Content.faithful hmode h⟩

theorem TypeRef.faithful {t : TypeRef} (h : (Slot.type t).RoundTrips sql) : (TypeRef.shape sql).Faithful t := by
  refine ⟨by simp [Variants.tags], ?_⟩
  cases t with
  | raw name => exact ⟨rfl, by simp, trivial, trivial⟩
  | hydrated captured tree suffix =>
    have htree : (Shape.codec sql.type).Faithful tree := h
    refine ⟨rfl, by simp, ?_⟩
    simpa using htree

/-- The shapes are faithful to a leaf of either kind, if its mode is known and its SQL is read back. -/
theorem Slot.faithful {x : Slot} (hmode : ∀ m, x.mode? = some m → m.IsKnown) (h : x.RoundTrips sql) :
    x.Faithful (Leaf.shape sql) (TypeRef.shape sql) := by
  cases x with
  | leaf l => exact Leaf.faithful (hmode l.mode rfl) h
  | type t => exact TypeRef.faithful h

@[simp] theorem Leaf.solid_shape : (Leaf.shape sql).Solid := Shape.solid_choice _
@[simp] theorem TypeRef.solid_shape : (TypeRef.shape sql).Solid := Shape.solid_choice _

end

/-! ## Data -/

theorem forall_mem_toList_map {α β : Type} {p : β → Prop} {f : α → β} {value : Option α} :
    (∀ x ∈ (value.map f).toList, p x) ↔ ∀ a, value = some a → p (f a) := by
  cases value with
  | none => simp
  | some a => simp

/-- The leaves of a datum. -/
def Datum.contents : Datum → List Slot
  | scalar v =>
    (v.type.map Slot.type).toList ++ (v.initial.map Slot.leaf).toList ++
      (v.cursorQuery.map Slot.leaf).toList
  | record r => (r.type.map Slot.type).toList
  | row _ => []
  | field _ => []

theorem Member.faithful (m : Member) : Member.shape.Faithful m :=
  ⟨rfl, by simp, trivial, trivial, trivial⟩

section

variable {leaf : Shape Leaf} {type : Shape TypeRef}

theorem Datum.faithful (hleaf : leaf.Solid) (htype : type.Solid) {d : Datum}
    (h : ∀ x ∈ d.contents, x.Faithful leaf type) : (Datum.shape leaf type).Faithful d := by
  refine ⟨by simp [Variants.tags], ?_⟩
  cases d with
  | scalar v =>
    simp only [contents, List.forall_mem_append, forall_mem_toList_map] at h
    obtain ⟨⟨hv, hinitial⟩, hquery⟩ := h
    refine ⟨rfl, by simp, ?_⟩
    simpa [hleaf, htype] using And.intro hv (And.intro hinitial hquery)
  | record r =>
    simp only [contents, forall_mem_toList_map] at h
    refine ⟨rfl, by simp, ?_⟩
    simpa [htype] using h
  | row r => exact ⟨rfl, by simp, trivial, trivial, fun m _ => Member.faithful m, trivial⟩
  | field f => exact ⟨rfl, by simp, trivial, trivial, trivial⟩

end

end Routine
