import Routine.Proofs.FaithfulLeaf
import Routine.Proofs.ShapeLevels

/-!
# Trees of this library can be read back

The numbers in parsed SQL, lines and columns of names and sizes of arrays, have to fit 64 bits, as they do
where the trees come from. A tree with such numbers is read back by the codec of this library
(`Sql.Tree.codec_roundTrips`), and so are the trees in a leaf (`Slot.roundTrips_codecs`).

The shape of a tree is faithful to it as soon as it has the levels of the tree. The text is read with as many
levels as there is room for. That it holds the same tree goes back to the refinement of levels.
-/

namespace Routine

namespace Sql

open Text (Location)

/-- The numbers that say where a name stands. -/
def Ident.numbers (id : Ident) : List Nat :=
  [id.span.start.line, id.span.start.column, id.span.stop.line, id.span.stop.column]

mutual

/-- The numbers in a tree. -/
def Tree.numbers : Tree → List Nat
  | .name id | .identifier id | .savepoint id => id.numbers
  | .compound ids => ids.flatMap Ident.numbers
  | .custom type _ => type.flatMap Ident.numbers
  | .nested t | .isNull t | .subquery t | .unary _ t => t.numbers
  | .binary _ t u | .cast t u => t.numbers ++ u.numbers
  | .call function rest => function.flatMap Ident.numbers ++ Tree.numbersAll rest
  | .access root steps => root.numbers ++ Tree.numbersAll steps
  | .array item size => item.numbers ++ size.toList
  | .phrase parts => Tree.numbersAll parts
  | .keyword _ | .literal _ | .builtin _ => []

/-- The numbers in all trees. -/
def Tree.numbersAll : List Tree → List Nat
  | [] => []
  | t :: ts => t.numbers ++ Tree.numbersAll ts

end

/-- The number is one of 64 bits. -/
def Fits (n : Nat) : Prop := n ≤ Json.Numeral.maxUnsigned

theorem location_faithful {l : Location} (hline : Fits l.line) (hcolumn : Fits l.column) :
    locationShape.Faithful l :=
  ⟨rfl, by simp, hline, hcolumn, trivial⟩

theorem Ident.faithful {id : Ident} (h : ∀ n ∈ id.numbers, Fits n) : Ident.shape.Faithful id := by
  simp only [Ident.numbers, List.forall_mem_cons] at h
  obtain ⟨hline, hcolumn, hline', hcolumn', -⟩ := h
  have hspan : Span.shape.Faithful id.span :=
    ⟨rfl, by simp, location_faithful hline hcolumn, location_faithful hline' hcolumn', trivial⟩
  refine ⟨rfl, by simp, ?_⟩
  simp [hspan]

theorem idents_faithful {ids : List Ident} (h : ∀ n ∈ ids.flatMap Ident.numbers, Fits n) :
    Tree.identsShape.Faithful ids := by
  intro id hid
  exact Ident.faithful fun n hn => h n (List.mem_flatMap_of_mem hid hn)

theorem Literal.faithful (v : Literal) : Literal.shape.Faithful v := by
  refine ⟨by simp [stringVariant, Variants.tags], ?_⟩
  cases v with
  | string kind value => cases kind <;> simp [stringVariant, Variants.Faithful]
  | _ => simp [stringVariant, Variants.Faithful]

/-- The operators of a table, each under its name, and all others. -/
def operatorVariants (table : List (String × String)) : Variants String :=
  table.foldr (fun (name, text) rest => .bare name text (· = text) rest)
    (.holding "Custom" .string id some .nil)

theorem operatorVariants_tags (table : List (String × String)) :
    (operatorVariants table).tags = table.map Prod.fst ++ ["Custom"] := by
  induction table with
  | nil => rfl
  | cons entry table ih => exact congrArg (entry.1 :: ·) ih

theorem operatorVariants_faithful (table : List (String × String)) (op : String) :
    (operatorVariants table).Faithful op := by
  induction table with
  | nil => exact ⟨rfl, trivial⟩
  | cons entry table ih =>
    show if decide (op = entry.2) = true then op = entry.2 else (operatorVariants table).Faithful op
    split
    · next h => exact of_decide_eq_true h
    · exact ih

/-- Every operator can be read back, one of the table or not, if the names in the table differ. -/
theorem operatorShape_faithful {table : List (String × String)}
    (h : (table.map Prod.fst ++ ["Custom"]).Nodup) (op : String) :
    (operatorShape table).Faithful op := by
  refine ⟨?_, operatorVariants_faithful table op⟩
  show (operatorVariants table).tags.Nodup
  rw [operatorVariants_tags]
  exact h

theorem binary_faithful (op : String) : (operatorShape binaryOperators).Faithful op :=
  operatorShape_faithful (by decide) op

theorem unary_faithful (op : String) : (operatorShape unaryOperators).Faithful op :=
  operatorShape_faithful (by decide) op

namespace Tree

theorem variants_tags_nodup (below : Shape Tree) : (variants below).tags.Nodup := by
  simp [variants, Variants.tags]

/-- What the trees of a list have together, each of them has. -/
theorem forall_mem_of_all {level : Nat} {ts : List Tree} (hdepth : depthAll ts ≤ level)
    (hnumbers : ∀ n ∈ numbersAll ts, Fits n) :
    ∀ t ∈ ts, t.depth ≤ level ∧ ∀ n ∈ t.numbers, Fits n := by
  induction ts with
  | nil =>
    intro t ht
    cases ht
  | cons u us ih =>
    rw [depthAll, Nat.max_le] at hdepth
    rw [numbersAll, List.forall_mem_append] at hnumbers
    rw [List.forall_mem_cons]
    exact ⟨⟨hdepth.1, hnumbers.1⟩, ih hdepth.2 hnumbers.2⟩

/-- The forms of a tree are faithful to it, if the shape of its members is faithful to everything that
goes one level less deep. -/
theorem variants_faithful {level : Nat} {below : Shape Tree}
    (hbelow : ∀ u : Tree, u.depth ≤ level → (∀ n ∈ u.numbers, Fits n) → below.Faithful u) {t : Tree}
    (hdepth : t.depth ≤ level + 1) (hnumbers : ∀ n ∈ t.numbers, Fits n) :
    (variants below).Faithful t := by
  have hall : ∀ {ts : List Tree}, depthAll ts ≤ level → (∀ n ∈ numbersAll ts, Fits n) →
      (Shape.list below).Faithful ts := by
    intro ts hdepth hnumbers u hu
    obtain ⟨hu, hu'⟩ := forall_mem_of_all hdepth hnumbers u hu
    exact hbelow u hu hu'
  -- In each case the family computes down to the form of the tree, and what is left are its members.
  cases t with
  | keyword text => exact ⟨rfl, trivial⟩
  | builtin text =>
    -- `TEXT` is the one type of its kind with a tag of its own.
    by_cases htext : text = "TEXT"
    · simp [variants, Variants.Faithful, htext]
    · simp [variants, Variants.Faithful, htext]
  | literal value => exact ⟨rfl, Literal.faithful value⟩
  | name id | identifier id => exact ⟨rfl, Ident.faithful hnumbers⟩
  | savepoint id => exact ⟨rfl, by simp, Ident.faithful hnumbers, trivial⟩
  | compound ids => exact ⟨rfl, idents_faithful hnumbers⟩
  | custom type modifiers => exact ⟨rfl, idents_faithful hnumbers, fun _ _ => trivial, trivial⟩
  | nested u | isNull u | subquery u =>
    rw [depth] at hdepth
    exact ⟨rfl, hbelow u (by omega) hnumbers⟩
  | unary op u =>
    rw [depth] at hdepth
    exact ⟨rfl, by simp, unary_faithful op, hbelow u (by omega) hnumbers, trivial⟩
  | binary op u v =>
    rw [depth, Nat.add_le_add_iff_right, Nat.max_le] at hdepth
    rw [numbers, List.forall_mem_append] at hnumbers
    have hu := hbelow u hdepth.1 hnumbers.1
    have hv := hbelow v hdepth.2 hnumbers.2
    exact ⟨rfl, by simp, hu, binary_faithful op, hv, trivial⟩
  | cast u v =>
    rw [depth, Nat.add_le_add_iff_right, Nat.max_le] at hdepth
    rw [numbers, List.forall_mem_append] at hnumbers
    exact ⟨rfl, by simp, hbelow u hdepth.1 hnumbers.1, hbelow v hdepth.2 hnumbers.2, trivial⟩
  | call function rest =>
    rw [depth] at hdepth
    rw [numbers, List.forall_mem_append] at hnumbers
    exact ⟨rfl, by simp, idents_faithful hnumbers.1, hall (by omega) hnumbers.2, trivial⟩
  | access root steps =>
    rw [depth, Nat.add_le_add_iff_right, Nat.max_le] at hdepth
    rw [numbers, List.forall_mem_append] at hnumbers
    exact ⟨rfl, by simp, hbelow root hdepth.1 hnumbers.1, hall hdepth.2 hnumbers.2, trivial⟩
  | array item size =>
    rw [depth] at hdepth
    rw [numbers, List.forall_mem_append] at hnumbers
    have hsize : (Shape.option .natural).Faithful size := by
      refine (Shape.faithful_option Shape.solid_natural).2 ?_
      rintro n rfl
      exact hnumbers.2 n (by simp)
    exact ⟨rfl, by simp [Variants.tags], rfl, hbelow item (by omega) hnumbers.1, hsize, trivial⟩
  | phrase parts =>
    rw [depth] at hdepth
    exact ⟨rfl, hall (by omega) hnumbers⟩

/-- A shape is faithful to the trees that have no more levels than it. -/
theorem faithful {level : Nat} {t : Tree} (hdepth : t.depth ≤ level)
    (hnumbers : ∀ n ∈ t.numbers, Fits n) : (shape level).Faithful t := by
  induction level generalizing t with
  | zero => cases t <;> simp [depth] at hdepth
  | succ level ih =>
    refine ⟨variants_tags_nodup _, variants_faithful ?_ hdepth hnumbers⟩
    intro u hdepth hnumbers
    exact ih hdepth hnumbers

theorem solid_shape : (level : Nat) → (shape level).Solid
  | 0 => fun _ h => h.elim
  | _ + 1 => Shape.solid_choice _

/-- A tree whose numbers fit is read back. -/
theorem codec_roundTrips {t : Tree} (hnumbers : ∀ n ∈ t.numbers, Fits n) : codec.RoundTrips t := by
  have hfaithful : (shape t.depth).Faithful t := faithful (Nat.le_refl _) hnumbers
  refine ⟨solid_shape t.depth t hfaithful, ?_⟩
  intro room hroom
  obtain ⟨hfaithful', hwrite⟩ := shape_refines room t.depth t hfaithful hroom
  have hwrite : (shape room).write t = codec.write t := hwrite
  have hreads : Json.Reads ((shape room).ofText room) ((shape room).write t) t :=
    Shape.reads (shape room) hfaithful' (hwrite ▸ hroom)
  exact hwrite ▸ hreads

end Tree
end Sql

namespace Slot

/-- The parsed SQL of a leaf. -/
def trees : Slot → List Sql.Tree
  | leaf l => l.trees
  | type (.raw _) => []
  | type (.hydrated _ t _) => [t]

/-- The numbers in the parsed SQL of a leaf. -/
def numbers (x : Slot) : List Nat := x.trees.flatMap Sql.Tree.numbers

theorem roundTrips_codecs {x : Slot} (h : ∀ n ∈ x.numbers, Sql.Fits n) : x.RoundTrips Sql.codecs := by
  have htrees : ∀ t ∈ x.trees, Sql.Tree.codec.RoundTrips t := by
    intro t ht
    refine Sql.Tree.codec_roundTrips ?_
    intro n hn
    exact h n (List.mem_flatMap_of_mem ht hn)
  match x with
  | .leaf (.raw _ _) => trivial
  | .leaf (.hydrated _ _ .raw) => trivial
  | .leaf (.hydrated _ _ (.statement t)) => exact htrees t (List.mem_singleton_self t)
  | .leaf (.hydrated _ _ (.expression t)) => exact htrees t (List.mem_singleton_self t)
  | .leaf (.hydrated _ _ (.assignment _ _ t u)) =>
    simp only [trees, Leaf.trees, Content.trees, List.forall_mem_append, Option.mem_toList] at htrees
    exact htrees
  | .type (.raw _) => trivial
  | .type (.hydrated _ t _) => exact htrees t (List.mem_singleton_self t)

end Slot
end Routine
