import Routine.Codec.Tree
import Routine.Proofs.ShapeText

/-!
# Shapes that are put together alike

The shape of parse trees is one of a family. It has a number of levels, and it is put together from a shape of
leaves and a shape of types. Two members of the family differ only in these, and `Shape.Alike` says so by
rules: one for every way of putting shapes together, one for a shape that is exhausted where the other need
not be, and one for pairs that are given. The depth `k` bounds how far down the two are compared. A value that
is less than `k` deep does not reach below, so that the second shape may be exhausted there.

Facts that relate two shapes are proved by induction on the rules, and hold of all parse trees by
`ParseTree.format_alike`. No rule relates a shape to itself for nothing: the rules also record what the format
never does, that a conversion refuses what is not a word, or that anything but a scalar is told apart by
looking at it. In particular a codec is alike itself only where this is given (`Sql.Codecs.Given`): what is
proved of the format says what it takes from its codecs.
-/

namespace Routine

/-- Nothing but scalars is accepted. -/
def TellsScalars {α : Type} (read : Json → Option α) : Prop := ∀ v a, read v = some a → v.IsScalar

/-- Nothing is refused. -/
def IsTotal {α β : Type} (read : α → Except String β) : Prop := ∀ a, ∃ b, read a = .ok b

mutual

/-- Down to the depth, the second shape is put together like the first, from the given pairs. -/
inductive Shape.Alike (given : (α : Type) → Shape α → Shape α → Prop) :
    Nat → {α : Type} → Shape α → Shape α → Prop
  | deep {α : Type} {s s' : Shape α} : Shape.Alike given 0 s s'
  | weaken {j k : Nat} {α : Type} {s s' : Shape α} (hjk : j ≤ k) (h : Shape.Alike given k s s') :
      Shape.Alike given j s s'
  | given {k : Nat} {α : Type} {s s' : Shape α} (h : given α s s') : Shape.Alike given k s s'
  | exhausted {k : Nat} {α : Type} {s' : Shape α} : Shape.Alike given k .exhausted s'
  | int32 {k : Nat} : Shape.Alike given k .int32 .int32
  | int64 {k : Nat} : Shape.Alike given k .int64 .int64
  | natural {k : Nat} : Shape.Alike given k .natural .natural
  | bool {k : Nat} : Shape.Alike given k .bool .bool
  | string {k : Nat} : Shape.Alike given k .string .string
  | character {k : Nat} : Shape.Alike given k .character .character
  | option {k : Nat} {α : Type} {item item' : Shape α} (h : Shape.Alike given k item item') :
      Shape.Alike given k (.option item) (.option item')
  | list {k : Nat} {α : Type} {item item' : Shape α} (h : Shape.Alike given k item item') :
      Shape.Alike given k (.list item) (.list item')
  | record {k : Nat} {α σ : Type} {title : String} {f f' : Fields α σ} (h : Fields.Alike given k f f') :
      Shape.Alike given k (.record title f) (.record title f')
  /-- A value is less deep than the object that it stands in under its tag. -/
  | tagged {k : Nat} {α : Type} {tag : String} {item item' : Shape α} (h : Shape.Alike given k item item') :
      Shape.Alike given (k + 1) (.tagged tag item) (.tagged tag item')
  | choice {k : Nat} {α : Type} {v v' : Variants α} (h : Variants.Alike given k v v') :
      Shape.Alike given (k + 1) (.choice v) (.choice v')
  | convert {k : Nat} {α β : Type} {read : α → Except String β} {back : β → α} {item item' : Shape α}
      (htotal : IsTotal read) (h : Shape.Alike given k item item') :
      Shape.Alike given k (.convert read back item) (.convert read back item')
  | either {k : Nat} {α : Type} {title : String} {read : Json → Option α} {write : α → Json}
      (hread : TellsScalars read) : Shape.Alike given k (.either title read write) (.either title read write)
  /-- A word with a number. Its conversion may refuse. -/
  | word {k : Nat} {α β : Type} {title : String} {look : Json → Option α} {write : α → Json}
      {read : α → Except String β} {back : β → α} (hlook : TellsScalars look) :
      Shape.Alike given k (.convert read back (.either title look write))
        (.convert read back (.either title look write))

/-- The members are alike one by one. -/
inductive Fields.Alike (given : (α : Type) → Shape α → Shape α → Prop) :
    Nat → {α σ : Type} → Fields α σ → Fields α σ → Prop
  | nil {k : Nat} : Fields.Alike given k .nil .nil
  | cons {k : Nat} {α β σ : Type} {name : String} {item item' : Shape α} {whenAbsent whenShort : Option α}
      {isHidden : α → Bool} {rest rest' : Fields β σ} (hitem : Shape.Alike given k item item')
      (hrest : Fields.Alike given k rest rest') :
      Fields.Alike given k (.cons name item whenAbsent whenShort isHidden rest)
        (.cons name item' whenAbsent whenShort isHidden rest')

/-- What stands under the tags is alike. -/
inductive Variants.Alike (given : (α : Type) → Shape α → Shape α → Prop) :
    Nat → {α : Type} → Variants α → Variants α → Prop
  | nil {k : Nat} {α : Type} : Variants.Alike given k (.nil (α := α)) .nil
  | bare {k : Nat} {α : Type} {tag : String} {value : α} {isThis : α → Bool} {rest rest' : Variants α}
      (hrest : Variants.Alike given k rest rest') :
      Variants.Alike given k (.bare tag value isThis rest) (.bare tag value isThis rest')
  | holding {k : Nat} {α β : Type} {tag : String} {item item' : Shape β} {inject : β → α}
      {project : α → Option β} {rest rest' : Variants α} (hitem : Shape.Alike given k item item')
      (hrest : Variants.Alike given k rest rest') :
      Variants.Alike given k (.holding tag item inject project rest) (.holding tag item' inject project rest')
  | named {k : Nat} {α β σ : Type} {tag title : String} {f f' : Fields β σ} {inject : β → α}
      {project : α → Option β} {rest rest' : Variants α} (hf : Fields.Alike given k f f')
      (hrest : Variants.Alike given k rest rest') :
      Variants.Alike given k (.named tag title f inject project rest)
        (.named tag title f' inject project rest')
  /-- There are members: no value is read from an array without items. -/
  | positional {k : Nat} {α β σ : Type} {tag title : String} {f f' : Fields β σ} {inject : β → α}
      {project : α → Option β} {rest rest' : Variants α} (hcount : f.count ≠ 0) (hf : Fields.Alike given k f f')
      (hrest : Variants.Alike given k rest rest') :
      Variants.Alike given k (.positional tag title f inject project rest)
        (.positional tag title f' inject project rest')

end

variable {given : (α : Type) → Shape α → Shape α → Prop} {k : Nat}

theorem Fields.Alike.names_eq : {k : Nat} → {α σ : Type} → {f f' : Fields α σ} → Fields.Alike given k f f' →
    f'.names = f.names
  | _, _, _, _, _, .nil => rfl
  | _, _, _, _, _, .cons _ hrest => by rw [Fields.names, Fields.names, hrest.names_eq]

theorem Fields.Alike.count_eq : {k : Nat} → {α σ : Type} → {f f' : Fields α σ} → Fields.Alike given k f f' →
    f'.count = f.count
  | _, _, _, _, _, .nil => rfl
  | _, _, _, _, _, .cons _ hrest => by rw [Fields.count, Fields.count, hrest.count_eq]

theorem Fields.Alike.none_eq : {k : Nat} → {α σ : Type} → {f f' : Fields α σ} → Fields.Alike given k f f' →
    f'.none = f.none
  | _, _, _, _, _, .nil => rfl
  | _, _, _, _, _, .cons _ hrest => by rw [Fields.none, Fields.none, hrest.none_eq]

theorem Variants.Alike.tags_eq : {k : Nat} → {α : Type} → {v v' : Variants α} → Variants.Alike given k v v' →
    v'.tags = v.tags
  | _, _, _, _, .nil => rfl
  | _, _, _, _, .bare hrest => by rw [Variants.tags, Variants.tags, hrest.tags_eq]
  | _, _, _, _, .holding _ hrest => by rw [Variants.tags, Variants.tags, hrest.tags_eq]
  | _, _, _, _, .named _ hrest => by rw [Variants.tags, Variants.tags, hrest.tags_eq]
  | _, _, _, _, .positional _ _ hrest => by rw [Variants.tags, Variants.tags, hrest.tags_eq]

/-- Shapes that grow by a level on top, the first from nothing, are alike if the second has the levels of the
first, or as many as are compared. -/
theorem Shape.Alike.levels {α : Type} {shape shape' : Nat → Shape α} (hzero : shape 0 = .exhausted)
    (hstep : ∀ {j n n' : Nat}, j < k → Shape.Alike given j (shape n) (shape' n') →
      Shape.Alike given (j + 1) (shape (n + 1)) (shape' (n' + 1)))
    {n n' : Nat} (h : n ≤ n' ∨ k ≤ n') : Shape.Alike given k (shape n) (shape' n') := by
  -- A level is taken from each of the three numbers at once. Which of them runs out first decides the rule: the
  -- first shape is exhausted, or nothing is left to compare. The second shape never runs out alone.
  induction n' generalizing k n with
  | zero =>
    rcases h with h | h
    · obtain rfl := Nat.le_zero.1 h
      rw [hzero]
      exact .exhausted
    · obtain rfl := Nat.le_zero.1 h
      exact .deep
  | succ n' ih =>
    cases n with
    | zero =>
      rw [hzero]
      exact .exhausted
    | succ n =>
      cases k with
      | zero => exact .deep
      | succ k => exact hstep (Nat.lt_succ_self k) (ih (fun hj => hstep (Nat.lt_succ_of_lt hj)) (by omega))

/-! ## Parsed SQL -/

namespace Sql

theorem locationShape_alike : Shape.Alike given k locationShape locationShape :=
  .convert (fun _ => ⟨_, rfl⟩) (.record (.cons .natural (.cons .natural .nil)))

theorem Span.shape_alike : Shape.Alike given k Span.shape Span.shape :=
  .convert (fun _ => ⟨_, rfl⟩) (.record (.cons locationShape_alike (.cons locationShape_alike .nil)))

theorem Ident.shape_alike : Shape.Alike given k Ident.shape Ident.shape :=
  .convert (fun _ => ⟨_, rfl⟩)
    (.record (.cons .string (.cons (.option .character) (.cons Span.shape_alike .nil))))

theorem Literal.shape_alike : Shape.Alike given k Literal.shape Literal.shape :=
  .weaken (Nat.le_succ k) <| .choice <|
    .positional (Nat.succ_ne_zero _) (.cons .string (.cons .bool .nil)) <| .holding .string <|
    .named (.cons .string (.cons (.option .string) .nil)) <|
    .holding .string <| .holding .string <| .holding .string <| .holding .string <| .holding .string <|
    .holding .string <| .holding .bool <| .bare <| .holding .string .nil

theorem operatorShape_alike (table : List (String × String)) :
    Shape.Alike given k (operatorShape table) (operatorShape table) := by
  refine .weaken (Nat.le_succ k) (.choice ?_)
  induction table with
  | nil => exact .holding .string .nil
  | cons entry table ih => exact .bare ih

namespace Tree

theorem variants_alike {below below' : Shape Tree} (h : Shape.Alike given k below below') :
    Variants.Alike given k (variants below) (variants below') := by
  have hidents : Shape.Alike given k identsShape identsShape := .list Ident.shape_alike
  have hoperator : ∀ table, Shape.Alike given k (operatorShape table) (operatorShape table) :=
    operatorShape_alike
  refine .holding Ident.shape_alike <| .holding hidents <| .holding Literal.shape_alike ?_
  refine .holding h <| .named (.cons h (.cons (hoperator _) (.cons h .nil))) ?_
  refine .named (.cons (hoperator _) (.cons h .nil)) <| .holding h <| .holding h ?_
  refine .named (.cons hidents (.cons (.list h) .nil)) ?_
  refine .named (.cons h (.cons (.list h) .nil)) <| .named (.cons h (.cons h .nil)) ?_
  refine .bare <| .holding .string <|
    .positional (Nat.succ_ne_zero _) (.cons hidents (.cons (.list .string) .nil)) ?_
  refine .holding ?_ ?_
  · exact .weaken (Nat.le_succ k) <| .choice <|
      .positional (Nat.succ_ne_zero _) (.cons h (.cons (.option .natural) .nil)) .nil
  · exact .named (.cons Ident.shape_alike .nil) <| .holding .string <| .holding Ident.shape_alike <|
      .holding (.list h) .nil

/-- Shapes of trees are alike if the second has the levels of the first, or as many as are compared. -/
theorem shape_alike {n n' : Nat} (h : n ≤ n' ∨ k ≤ n') : Shape.Alike given k (shape n) (shape n') := by
  exact .levels rfl (fun _ hbelow => .choice (variants_alike hbelow)) h

end Tree
end Sql

/-! ## Leaves, types and data -/

theorem ParseMode.shape_alike : Shape.Alike given k ParseMode.shape ParseMode.shape :=
  .convert (fun _ => ⟨_, rfl⟩) .int32

section

/-- The codecs of parsed SQL are given. -/
structure Sql.Codecs.Given (given : (α : Type) → Shape α → Shape α → Prop) (sql : Sql.Codecs) : Prop where
  statement : given Sql.Tree (.codec sql.statement) (.codec sql.statement)
  expression : given Sql.Tree (.codec sql.expression) (.codec sql.expression)
  type : given Sql.Tree (.codec sql.type) (.codec sql.type)

variable {sql : Sql.Codecs}

theorem hydratedVariants_alike (h : sql.Given given) :
    Variants.Alike given k (hydratedVariants sql) (hydratedVariants sql) := by
  have hmode : Shape.Alike given k ParseMode.shape ParseMode.shape := ParseMode.shape_alike
  have hexpression : Shape.Alike given k (.codec sql.expression) (.codec sql.expression) := .given h.expression
  refine .named (.cons .string (.cons hmode .nil)) ?_
  refine .named (.cons .string (.cons hmode (.cons (.given h.statement) .nil))) ?_
  refine .named (.cons .string (.cons hmode (.cons hexpression .nil))) ?_
  exact .named (.cons .string <| .cons hmode <| .cons .string <| .cons .string <|
    .cons (.option hexpression) <| .cons (.option hexpression) .nil) .nil

theorem Leaf.shape_alike (h : sql.Given given) :
    Shape.Alike given k (Leaf.shape sql) (Leaf.shape sql) := by
  refine .weaken (Nat.le_succ k) <| .choice <| .holding ?_ <| .holding ?_ .nil
  · exact .record (.cons .string (.cons ParseMode.shape_alike .nil))
  · exact .weaken (Nat.le_succ k) (.choice (hydratedVariants_alike h))

theorem TypeRef.shape_alike (h : sql.Given given) :
    Shape.Alike given k (TypeRef.shape sql) (TypeRef.shape sql) :=
  .weaken (Nat.le_succ k) <| .choice <| .holding (.record (.cons .string .nil)) <|
    .holding (.record (.cons .string (.cons (.given h.type) (.cons (.option .string) .nil)))) .nil

end

section

variable {leaf leaf' : Shape Leaf} {type type' : Shape TypeRef} {datum datum' : Shape Datum}

theorem Member.shape_alike : Shape.Alike given k Member.shape Member.shape :=
  .convert (fun _ => ⟨_, rfl⟩) (.record (.cons .string (.cons .int32 .nil)))

theorem Datum.shape_alike (hleaf : Shape.Alike given k leaf leaf') (htype : Shape.Alike given k type type') :
    Shape.Alike given k (Datum.shape leaf type) (Datum.shape leaf' type') := by
  refine .weaken (Nat.le_succ k) <| .choice <| .holding (.record ?_) <| .holding (.record ?_) <|
    .holding (.record ?_) <| .holding (.record ?_) .nil
  · exact .cons .string <| .cons .int32 <| .cons (.option htype) <| .cons .bool <| .cons .bool <|
      .cons (.option hleaf) <| .cons (.option hleaf) <| .cons (.option .int32) <| .cons .int32 .nil
  · exact .cons .string <| .cons (.option .int32) <| .cons .int32 <| .cons (.option htype) .nil
  · exact .cons .string <| .cons .int32 <| .cons (.list Member.shape_alike) .nil
  · exact .cons .string <| .cons .int32 .nil

/-! ## Words with a number -/

theorem fitsWord_of_isInt64 {n : Int} (h : Shape.isInt64 n = true) : Json.FitsWord n := by
  simp only [Shape.isInt64, Bool.and_eq_true, decide_eq_true_eq] at h
  have hmin : Int64.minValue.toInt = -0x8000000000000000 := by decide
  have hmax : Int64.maxValue.toInt = 0x7FFFFFFFFFFFFFFF := by decide
  rw [hmin, hmax] at h
  exact ⟨by omega, by omega⟩

theorem NumberOrName.word_alike {β : Type} {read : NumberOrName → Except String β} {back : β → NumberOrName} :
    Shape.Alike given k (.convert read back NumberOrName.shape) (.convert read back NumberOrName.shape) := by
  refine .word ?_
  intro v a h
  cases v with
  | int n =>
    dsimp only at h
    split at h
    · next hn => exact fitsWord_of_isInt64 hn
    · cases h
  | str s => trivial
  | _ => cases h

theorem boolOrNumberShape_alike : Shape.Alike given k boolOrNumberShape boolOrNumberShape := by
  refine .either ?_
  intro v a h
  cases v with
  | bool b => trivial
  | int n =>
    dsimp only at h
    split at h
    · next hn => exact fitsWord_of_isInt64 hn
    · cases h
  | _ => cases h

/-! ## Statements -/

theorem taggedList_alike {α : Type} {tag : String} {item item' : Shape α}
    (h : Shape.Alike given k item item') :
    Shape.Alike given (k + 1) (taggedList tag item) (taggedList tag item') :=
  .convert (fun _ => ⟨_, rfl⟩) (.option (.list (.tagged h)))

theorem taggedMember_alike {α β σ : Type} {name tag : String} {item item' : Shape α} {rest rest' : Fields β σ}
    (h : Shape.Alike given k item item') (hrest : Fields.Alike given k rest rest') :
    Fields.Alike given k (.tagged name tag item rest) (.tagged name tag item' rest') :=
  .cons (.weaken (Nat.le_succ k) (taggedList_alike h)) hrest

theorem simpleVariant_alike {α σ : Type} {tag title : String} {f f' : Fields α σ} {inject : α → Simple}
    {project : Simple → Option α} {rest rest' : Variants Stmt} (hf : Fields.Alike given k f f')
    (hrest : Variants.Alike given k rest rest') :
    Variants.Alike given k (simpleVariant tag title f inject project rest)
      (simpleVariant tag title f' inject project rest') :=
  .holding (.record (.cons .int32 hf)) hrest

theorem loopVariant_alike {α σ : Type} {tag title : String} {f f' : Fields α σ}
    {inject : α → LoopHead × List Stmt} {project : LoopHead → List Stmt → Option α}
    {rest rest' : Variants Stmt} (hf : Fields.Alike given k f f')
    (hrest : Variants.Alike given k rest rest') :
    Variants.Alike given k (loopVariant tag title f inject project rest)
      (loopVariant tag title f' inject project rest') :=
  .holding (.record (.cons .int32 (.cons (.option .string) hf))) hrest

theorem RaiseOption.shape_alike (hleaf : Shape.Alike given k leaf leaf') :
    Shape.Alike given k (RaiseOption.shape leaf) (RaiseOption.shape leaf') :=
  .convert (fun _ => ⟨_, rfl⟩) (.record (.cons NumberOrName.word_alike (.cons hleaf .nil)))

theorem DiagnosticsTarget.shape_alike :
    Shape.Alike given k DiagnosticsTarget.shape DiagnosticsTarget.shape :=
  .convert (fun _ => ⟨_, rfl⟩) (.record (.cons NumberOrName.word_alike (.cons .int32 .nil)))

theorem earlySimple_alike {rest rest' : Variants Stmt} (hleaf : Shape.Alike given k leaf leaf')
    (hdatum : Shape.Alike given k datum datum') (hrest : Variants.Alike given k rest rest') :
    Variants.Alike given k (earlySimple leaf datum rest) (earlySimple leaf' datum' rest') := by
  refine simpleVariant_alike (.cons .bool (.cons (.option .string) (.cons (.option hleaf) .nil))) ?_
  refine simpleVariant_alike (.cons (.option hleaf) (.cons (.option .int32) .nil)) ?_
  refine simpleVariant_alike (.cons (.option hleaf) (.cons (.option .int32) .nil)) ?_
  refine simpleVariant_alike (.cons (.option hleaf) (.cons (.option hleaf) (.cons (.list hleaf) .nil))) ?_
  refine simpleVariant_alike (.cons NumberOrName.word_alike <| .cons (.option .string) <|
    .cons (.option .string) <| .cons (.list hleaf) <|
    taggedMember_alike (RaiseOption.shape_alike hleaf) .nil) ?_
  refine simpleVariant_alike (.cons hleaf (.cons (.option hleaf) .nil)) ?_
  refine simpleVariant_alike (.cons hleaf (.cons .bool (.cons .bool (.cons (.option hdatum) .nil)))) ?_
  exact simpleVariant_alike (.cons hleaf <| .cons .bool <| .cons .bool <| .cons (.option hdatum) <|
    .cons (.list hleaf) .nil) hrest

theorem lateSimple_alike {rest rest' : Variants Stmt} (hleaf : Shape.Alike given k leaf leaf')
    (hdatum : Shape.Alike given k datum datum') (hrest : Variants.Alike given k rest rest') :
    Variants.Alike given k (lateSimple leaf datum rest) (lateSimple leaf' datum' rest') := by
  refine simpleVariant_alike (.cons .bool (taggedMember_alike DiagnosticsTarget.shape_alike .nil)) ?_
  refine simpleVariant_alike (.cons .int32 <| .cons .int32 <| .cons (.option hleaf) <|
    .cons (.option hleaf) <| .cons (.option hleaf) <| .cons (.list hleaf) .nil) ?_
  refine simpleVariant_alike (.cons (.option hdatum) <| .cons .int32 <| .cons NumberOrName.word_alike <|
    .cons .int64 <| .cons (.option hleaf) <| .cons .bool <| .cons .bool .nil) ?_
  refine simpleVariant_alike (.cons .int32 .nil) <| simpleVariant_alike (.cons hleaf .nil) ?_
  refine simpleVariant_alike (.cons hleaf (.cons .bool (.cons (.option hdatum) .nil))) ?_
  refine simpleVariant_alike (.cons .bool .nil) <| simpleVariant_alike (.cons .bool .nil) ?_
  exact simpleVariant_alike (.cons hleaf .nil) hrest

variable {below below' : Shape Stmt}

theorem conditionShape_alike : Shape.Alike given k conditionShape conditionShape :=
  .convert (fun _ => ⟨_, rfl⟩) (.record (.cons .string .nil))

theorem Handlers.shape_alike (h : Shape.Alike given k below below') :
    Shape.Alike given k (Handlers.shape below) (Handlers.shape below') := by
  have hhandler : Shape.Alike given k (Handler.shape below) (Handler.shape below') :=
    .convert (fun _ => ⟨_, rfl⟩)
      (.record (.cons .int32 (taggedMember_alike conditionShape_alike (.cons (.list h) .nil))))
  exact .convert (fun _ => ⟨_, rfl⟩) (.record (taggedMember_alike hhandler .nil))

theorem Block.shape_alike (h : Shape.Alike given k below below') :
    Shape.Alike given k (Block.shape below) (Block.shape below') := by
  have hhandlers : Shape.Alike given k (.tagged "PLpgSQL_exception_block" (Handlers.shape below))
      (.tagged "PLpgSQL_exception_block" (Handlers.shape below')) :=
    .weaken (Nat.le_succ k) (.tagged (Handlers.shape_alike h))
  exact .convert (fun _ => ⟨_, rfl⟩) (.record (.cons .int32 <| .cons (.option .string) <|
    .cons (.list h) <| .cons (.option hhandlers) .nil))

theorem Arm.shape_alike {title condition : String} (hleaf : Shape.Alike given k leaf leaf')
    (h : Shape.Alike given k below below') :
    Shape.Alike given k (Arm.shape leaf below title condition) (Arm.shape leaf' below' title condition) :=
  .convert (fun _ => ⟨_, rfl⟩) (.record (.cons .int32 (.cons hleaf (.cons (.list h) .nil))))

theorem staticLoops_alike {rest rest' : Variants Stmt} (hleaf : Shape.Alike given k leaf leaf')
    (hdatum : Shape.Alike given k datum datum') (h : Shape.Alike given k below below')
    (hrest : Variants.Alike given k rest rest') :
    Variants.Alike given k (staticLoops leaf datum below rest) (staticLoops leaf' datum' below' rest') := by
  refine loopVariant_alike (.cons (.list h) .nil) ?_
  refine loopVariant_alike (.cons hleaf (.cons (.list h) .nil)) ?_
  refine loopVariant_alike (.cons hdatum <| .cons hleaf <| .cons hleaf <| .cons (.option hleaf) <|
    .cons boolOrNumberShape_alike <| .cons (.list h) .nil) ?_
  refine loopVariant_alike (.cons hdatum (.cons (.list h) (.cons hleaf .nil))) ?_
  refine loopVariant_alike (.cons hdatum <| .cons (.list h) <| .cons .int32 <| .cons (.option hleaf) .nil) ?_
  exact loopVariant_alike (.cons .int32 <| .cons .int32 <| .cons hleaf <| .cons (.list h) .nil) hrest

theorem Stmt.variants_alike (hleaf : Shape.Alike given k leaf leaf')
    (hdatum : Shape.Alike given k datum datum') (h : Shape.Alike given k below below') :
    Variants.Alike given k (Stmt.variants leaf datum below) (Stmt.variants leaf' datum' below') := by
  refine .holding (Block.shape_alike h) <| simpleVariant_alike (.cons .int32 (.cons hleaf .nil)) ?_
  refine .holding (.record <| .cons .int32 <| .cons hleaf <| .cons (.list h) <|
    taggedMember_alike (Arm.shape_alike hleaf h) <| .cons (.list h) .nil) ?_
  refine .holding (.record <| .cons .int32 <| .cons (.option hleaf) <| .cons .int32 <|
    taggedMember_alike (Arm.shape_alike hleaf h) <| .cons .bool <| .cons (.list h) .nil) ?_
  refine staticLoops_alike hleaf hdatum h <| earlySimple_alike hleaf hdatum ?_
  refine loopVariant_alike (.cons hdatum (.cons (.list h) (.cons hleaf (.cons (.list hleaf) .nil)))) ?_
  exact lateSimple_alike hleaf hdatum .nil

/-- Shapes of statements are alike if the second has the levels of the first, or as many as are compared. -/
theorem Stmt.shape_alike (hleaf : Shape.Alike given k leaf leaf') (hdatum : Shape.Alike given k datum datum')
    {n n' : Nat} (h : n ≤ n' ∨ k ≤ n') :
    Shape.Alike given k (Stmt.shape leaf datum n) (Stmt.shape leaf' datum' n') := by
  refine .levels rfl ?_ h
  intro j n n' hj hbelow
  have hle := Nat.le_of_lt hj
  exact .choice (Stmt.variants_alike (.weaken hle hleaf) (.weaken hle hdatum) hbelow)

end

/-! ## Parse trees -/

namespace ParseTree

/-- **All shapes of parse trees are alike**, as far as their leaves and types are and the second has levels. A
tree is an array of objects with a tag, so it is one deeper than its statements. -/
theorem format_alike {leaf leaf' : Shape Leaf} {type type' : Shape TypeRef} {n n' : Nat}
    (hleaf : Shape.Alike given k leaf leaf') (htype : Shape.Alike given k type type') (h : n ≤ n' ∨ k ≤ n') :
    Shape.Alike given (k + 1) (format leaf type n) (format leaf' type' n') := by
  have hdatum := Datum.shape_alike hleaf htype
  have hblock := Block.shape_alike (Stmt.shape_alike hleaf hdatum h)
  refine taggedList_alike (.convert (fun _ => ⟨_, rfl⟩) (.record (.cons (.list hdatum) (.cons ?_ .nil))))
  exact .weaken (Nat.le_succ k) (.tagged hblock)

theorem shape_alike {sql : Sql.Codecs} (hsql : sql.Given given) {n n' : Nat} (h : n ≤ n' ∨ k ≤ n') :
    Shape.Alike given (k + 1) (shape sql n) (shape sql n') :=
  format_alike (Leaf.shape_alike hsql) (TypeRef.shape_alike hsql) h

end ParseTree
end Routine
