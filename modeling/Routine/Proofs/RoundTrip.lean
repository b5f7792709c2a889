import Routine.Proofs.TreeCodec

/-!
# Decoding undoes encoding

A parse tree that is written as JSON text is read back as it was: every statement, every datum and every
leaf, raw or hydrated. `ParseTree.contents` lists all leaves that the text holds. Those are the leaves of
`slots` and also the leaves of the data inside statements, which are copies but are written out too. How
the parsed SQL of the leaves is written is left to the codecs, and that they read it back is a hypothesis
(`ParseTree.SqlRoundTrips`).

The shapes of statements are faithful to a statement if the shapes of leaves and types are faithful to
its contents (`Stmt.faithful`). This goes by induction on levels, and a level is one step: the variants
are faithful to a statement if the shape below is faithful to all statements of one level less.
-/

namespace Routine

/-! ## Contents -/

namespace Simple

/-- All leaves of a simple statement, those of its data included. -/
def contents : Simple → List Slot
  | assign _ value => [.leaf value]
  | exit _ _ condition => (condition.map Slot.leaf).toList
  | ret value _ => (value.map Slot.leaf).toList
  | returnNext value _ => (value.map Slot.leaf).toList
  | returnQuery query dynamic parameters =>
    (query.map Slot.leaf).toList ++ (dynamic.map Slot.leaf).toList ++ parameters.map Slot.leaf
  | raise _ _ _ parameters options => parameters.map Slot.leaf ++ options.map fun o => .leaf o.value
  | assert condition message => .leaf condition :: (message.map Slot.leaf).toList
  | execute sql into => .leaf sql :: into.target.toList.flatMap Datum.contents
  | executeDynamic query into parameters =>
    .leaf query :: (into.target.toList.flatMap Datum.contents ++ parameters.map Slot.leaf)
  | getDiagnostics _ _ => []
  | openCursor _ _ arguments query dynamic parameters =>
    (arguments.map Slot.leaf).toList ++ (query.map Slot.leaf).toList ++ (dynamic.map Slot.leaf).toList ++
      parameters.map Slot.leaf
  | fetch target _ _ _ amount _ _ =>
    target.toList.flatMap Datum.contents ++ (amount.map Slot.leaf).toList
  | closeCursor _ => []
  | perform query => [.leaf query]
  | call sql _ target => .leaf sql :: target.toList.flatMap Datum.contents
  | commit _ => []
  | rollback _ => []
  | set sql => [.leaf sql]

end Simple

/-- All leaves of a loop head, those of its data included. -/
def LoopHead.contents : LoopHead → List Slot
  | forever => []
  | whilst condition => [.leaf condition]
  | range target lower upper step _ =>
    target.contents ++ .leaf lower :: .leaf upper :: (step.map Slot.leaf).toList
  | query target sql => target.contents ++ [.leaf sql]
  | cursor target _ arguments => target.contents ++ (arguments.map Slot.leaf).toList
  | array _ _ value => [.leaf value]
  | dynamic target sql parameters => target.contents ++ .leaf sql :: parameters.map Slot.leaf

mutual

/-- All leaves of a statement and of those inside it. -/
def Stmt.contents : Stmt → List Slot
  | .block b => b.contents
  | .simple _ s => s.contents
  | .conditional _ condition body arms otherwise =>
    .leaf condition :: (Stmts.contents body ++ Arms.contents arms ++ Stmts.contents otherwise)
  | .choice _ operand _ arms _ otherwise =>
    (operand.map Slot.leaf).toList ++ Arms.contents arms ++ Stmts.contents otherwise
  | .loop _ _ head body => head.contents ++ Stmts.contents body

/-- All leaves of statements. -/
def Stmts.contents : List Stmt → List Slot
  | [] => []
  | s :: ss => s.contents ++ Stmts.contents ss

/-- All leaves of a block. -/
def Block.contents : Block → List Slot
  | ⟨_, _, body, handlers⟩ => Stmts.contents body ++ Handlers.contents? handlers

/-- All leaves of handlers, if there are any. -/
def Handlers.contents? : Option (List Handler) → List Slot
  | none => []
  | some hs => Handlers.contents hs

/-- All leaves of handlers. -/
def Handlers.contents : List Handler → List Slot
  | [] => []
  | ⟨_, _, action⟩ :: hs => Stmts.contents action ++ Handlers.contents hs

/-- All leaves of arms. -/
def Arms.contents : List Arm → List Slot
  | [] => []
  | ⟨_, condition, body⟩ :: as => .leaf condition :: (Stmts.contents body ++ Arms.contents as)

end

/-- All leaves of the routines. -/
def ParseTree.contents (t : ParseTree) : List Slot :=
  t.flatMap fun f => f.data.flatMap Datum.contents ++ f.action.contents

/-! ## Words with a number -/

theorem NumberOrName.faithful : (x : NumberOrName) → NumberOrName.shape.Faithful x
  | .number n => by
    refine ⟨?_, Shape.fitsWord_int64 n⟩
    simp [Shape.isInt64_toInt]
  | .name s => ⟨rfl, trivial⟩

theorem Severity.faithful (s : Severity) : Severity.shape.Faithful s := ⟨rfl, NumberOrName.faithful _⟩

theorem RaiseField.find_keyword (f : RaiseField) :
    all.find? (·.keyword = withoutLead "PLPGSQL_RAISEOPTION_" (Text.uppercase f.keyword)) = some f := by
  cases f <;> decide

theorem RaiseField.faithful (f : RaiseField) : RaiseField.shape.Faithful f := by
  refine ⟨?_, NumberOrName.faithful _⟩
  simp only [find_keyword f]

theorem DiagnosticsItem.find_keyword (i : DiagnosticsItem) :
    (all.find? fun item => Text.sameName item.keyword i.keyword) = some i := by
  cases i <;> decide

theorem DiagnosticsItem.faithful (i : DiagnosticsItem) : DiagnosticsItem.shape.Faithful i := by
  refine ⟨?_, NumberOrName.faithful _⟩
  simp only [find_keyword i]

theorem Direction.byNumber_number (d : Direction) : byNumber? all d.number = some d := by
  cases d <;> decide

theorem Direction.faithful (d : Direction) : Direction.shape.Faithful d := by
  refine ⟨?_, NumberOrName.faithful _⟩
  simp only [byNumber_number d]

/-! ## Members -/

theorem Shape.faithful_taggedList {α : Type} {tag : String} {item : Shape α} {values : List α} :
    (taggedList tag item).Faithful values ↔ ∀ a ∈ values, item.Faithful a := by
  constructor
  · intro h
    exact (h.2 values rfl).1
  · intro h
    refine ⟨rfl, ?_⟩
    rintro _ ⟨⟩
    exact ⟨h, Json.noConfusion⟩

namespace Fields

variable {α β σ : Type} {name tag : String} {item : Shape α} {rest : Fields β σ} {b : β}

@[simp] theorem names_tagged : (Fields.tagged name tag item rest).names = name :: rest.names := rfl
@[simp] theorem names_listed : (listed name item rest).names = name :: rest.names := rfl
@[simp] theorem names_label : (label rest).names = "label" :: rest.names := rfl

@[simp] theorem faithful_tagged {values : List α} :
    (Fields.tagged name tag item rest).Faithful (values, b) ↔
      (∀ a ∈ values, item.Faithful a) ∧ rest.Faithful b :=
  and_congr_left fun _ => Shape.faithful_taggedList

@[simp] theorem faithful_listed {values : List α} :
    (listed name item rest).Faithful (values, b) ↔
      (∀ a ∈ values, item.Faithful a) ∧ rest.Faithful b := Iff.rfl

@[simp] theorem faithful_label {text : Option String} :
    (label rest).Faithful (text, b) ↔ rest.Faithful b := by
  simp [label]

/-- Truth values that sources may give as numbers are written as truth values. -/
@[simp] theorem faithful_boolOrNumber {a : Bool} :
    (cons name boolOrNumberShape (some false) (some false) (fun b => !b) rest).Faithful (a, b) ↔
      rest.Faithful b := by
  refine and_iff_right ?_
  cases a with
  | false => rfl
  | true => exact ⟨rfl, trivial⟩

end Fields

/-! ## Statements with no statements inside -/

section

variable {leaf : Shape Leaf} {type : Shape TypeRef}

@[simp] theorem Datum.solid_shape : (Datum.shape leaf type).Solid := Shape.solid_choice _

theorem Datum.faithful_target (hleaf : leaf.Solid) (htype : type.Solid) {target : Option Datum}
    (h : ∀ x ∈ target.toList.flatMap Datum.contents, x.Faithful leaf type) :
    ∀ d, target = some d → (Datum.shape leaf type).Faithful d := by
  rintro d rfl
  refine Datum.faithful hleaf htype ?_
  intro x hx
  exact h x (List.mem_flatMap.2 ⟨d, by simp, hx⟩)

theorem RaiseOption.faithful {o : RaiseOption} (h : leaf.Faithful o.value) :
    (RaiseOption.shape leaf).Faithful o :=
  ⟨rfl, by simp, RaiseField.faithful o.field, h, trivial⟩

theorem DiagnosticsTarget.faithful (t : DiagnosticsTarget) : DiagnosticsTarget.shape.Faithful t :=
  ⟨rfl, by simp, DiagnosticsItem.faithful t.item, trivial, trivial⟩

variable {below : Shape Stmt} {line : Int32}

theorem Simple.faithful (hleaf : leaf.Solid) (htype : type.Solid) {s : Simple}
    (h : ∀ x ∈ s.contents, x.Faithful leaf type) :
    (Stmt.variants leaf (Datum.shape leaf type) below).Faithful (.simple line s) := by
  -- The tags before that of the statement stand for none of its kind, so the family computes down to its
  -- own tag, and what is left are the members.
  cases s
  all_goals
    simp only [contents, List.forall_mem_append, List.forall_mem_cons, List.forall_mem_map,
      forall_mem_toList_map, Slot.faithful_leaf] at h
    refine ⟨rfl, by simp, ?_⟩
  case assign | perform | set => simpa using h.1
  case exit | ret | returnNext | returnQuery | assert | openCursor => simpa [hleaf, and_assoc] using h
  case raise parameters options =>
    have hoptions : ∀ o ∈ options, (RaiseOption.shape leaf).Faithful o :=
      fun o ho => RaiseOption.faithful (h.2 o ho)
    simpa [Severity.faithful] using And.intro h.1 hoptions
  case execute | call =>
    have htarget := Datum.faithful_target hleaf htype h.2
    simpa using And.intro h.1 htarget
  case executeDynamic =>
    have htarget := Datum.faithful_target hleaf htype h.2.1
    simpa using And.intro h.1 (And.intro htarget h.2.2)
  case fetch =>
    have htarget := Datum.faithful_target hleaf htype h.1
    simpa [hleaf, Direction.faithful] using And.intro htarget h.2
  case getDiagnostics | closeCursor | commit | rollback => simp [DiagnosticsTarget.faithful]

theorem LoopHead.faithful (hleaf : leaf.Solid) (htype : type.Solid) {label : Option String}
    {head : LoopHead} {body : List Stmt} (h : ∀ x ∈ head.contents, x.Faithful leaf type)
    (hbody : ∀ s ∈ body, below.Faithful s) :
    (Stmt.variants leaf (Datum.shape leaf type) below).Faithful (.loop line label head body) := by
  cases head
  all_goals
    simp only [contents, List.forall_mem_append, List.forall_mem_cons, List.forall_mem_map,
      forall_mem_toList_map, Slot.faithful_leaf] at h
    refine ⟨rfl, by simp [Fields.names], ?_⟩
  case forever => simpa using hbody
  case whilst | array => simpa using And.intro h.1 hbody
  case range =>
    have htarget := Datum.faithful hleaf htype h.1
    simpa [hleaf, htarget, and_assoc] using And.intro h.2 hbody
  case query =>
    have htarget := Datum.faithful hleaf htype h.1
    simpa [htarget] using And.intro hbody h.2.1
  case cursor =>
    have htarget := Datum.faithful hleaf htype h.1
    simpa [hleaf, htarget] using And.intro hbody h.2
  case dynamic =>
    have htarget := Datum.faithful hleaf htype h.1
    simpa [htarget] using And.intro hbody h.2

/-! ## Statements with statements inside -/

end

section

variable {leaf : Shape Leaf} {type : Shape TypeRef} {below : Shape Stmt} {level : Nat}

/-- The shape is faithful to the statements that go no deeper than the level, as far as the shapes of
leaves and types are faithful to their contents. -/
def Stmt.FaithfulUpTo (leaf : Shape Leaf) (type : Shape TypeRef) (below : Shape Stmt) (level : Nat) :
    Prop :=
  ∀ s : Stmt, s.depth ≤ level → (∀ x ∈ s.contents, x.Faithful leaf type) → below.Faithful s

theorem Stmts.faithful (hbelow : Stmt.FaithfulUpTo leaf type below level) {ss : List Stmt}
    (hdepth : Stmts.depth ss ≤ level) (h : ∀ x ∈ Stmts.contents ss, x.Faithful leaf type) :
    ∀ s ∈ ss, below.Faithful s := by
  induction ss with
  | nil =>
    intro s hs
    cases hs
  | cons s ss ih =>
    rw [Stmts.depth, Nat.max_le] at hdepth
    rw [Stmts.contents, List.forall_mem_append] at h
    rw [List.forall_mem_cons]
    exact ⟨hbelow s hdepth.1 h.1, ih hdepth.2 h.2⟩

theorem Arms.faithful (hbelow : Stmt.FaithfulUpTo leaf type below level) {title condition : String}
    (hnames : ["lineno", condition, "stmts"].Nodup) {as : List Arm} (hdepth : Arms.depth as ≤ level)
    (h : ∀ x ∈ Arms.contents as, x.Faithful leaf type) :
    ∀ a ∈ as, (Arm.shape leaf below title condition).Faithful a := by
  induction as with
  | nil =>
    intro a ha
    cases ha
  | cons a as ih =>
    obtain ⟨line, condition, body⟩ := a
    rw [Arms.depth, Nat.max_le] at hdepth
    rw [Arms.contents, List.forall_mem_cons, List.forall_mem_append] at h
    rw [List.forall_mem_cons]
    refine ⟨⟨rfl, hnames, ?_⟩, ih hdepth.2 h.2.2⟩
    have hbody := Stmts.faithful hbelow hdepth.1 h.2.1
    simpa using And.intro h.1 hbody

theorem condition_faithful (name : String) : conditionShape.Faithful name :=
  ⟨rfl, by simp, trivial, trivial⟩

theorem Handlers.faithful (hbelow : Stmt.FaithfulUpTo leaf type below level) {hs : List Handler}
    (hdepth : Handlers.depth hs ≤ level) (h : ∀ x ∈ Handlers.contents hs, x.Faithful leaf type) :
    (Handlers.shape below).Faithful hs := by
  have hall : ∀ handler ∈ hs, (Handler.shape below).Faithful handler := by
    induction hs with
    | nil =>
      intro handler hhandler
      cases hhandler
    | cons handler hs ih =>
      obtain ⟨line, conditions, action⟩ := handler
      rw [Handlers.depth, Nat.max_le] at hdepth
      rw [Handlers.contents, List.forall_mem_append] at h
      rw [List.forall_mem_cons]
      refine ⟨⟨rfl, by simp, ?_⟩, ih hdepth.2 h.2⟩
      have haction := Stmts.faithful hbelow hdepth.1 h.1
      simpa [condition_faithful] using haction
  refine ⟨rfl, by simp, ?_⟩
  simpa using hall

theorem Block.faithful (hbelow : Stmt.FaithfulUpTo leaf type below level) {b : Block}
    (hdepth : b.depth ≤ level) (h : ∀ x ∈ b.contents, x.Faithful leaf type) :
    (Block.shape below).Faithful b := by
  obtain ⟨line, label, body, handlers⟩ := b
  rw [Block.depth, Nat.max_le] at hdepth
  rw [Block.contents, List.forall_mem_append] at h
  have hbody := Stmts.faithful hbelow hdepth.1 h.1
  have hhandlers : ∀ hs, handlers = some hs → (Handlers.shape below).Faithful hs := by
    rintro hs rfl
    exact Handlers.faithful hbelow hdepth.2 h.2
  refine ⟨rfl, by simp, ?_⟩
  simpa using And.intro hbody hhandlers

/-- One level of statements: what stands inside a statement goes one level less deep. -/
theorem Stmt.variants_faithful (hleaf : leaf.Solid) (htype : type.Solid)
    (hbelow : Stmt.FaithfulUpTo leaf type below level) {s : Stmt} (hdepth : s.depth ≤ level + 1)
    (h : ∀ x ∈ s.contents, x.Faithful leaf type) :
    (Stmt.variants leaf (Datum.shape leaf type) below).Faithful s := by
  cases s with
  | block b =>
    rw [Stmt.depth] at hdepth
    rw [Stmt.contents] at h
    exact ⟨rfl, Block.faithful hbelow (by omega) h⟩
  | simple line s =>
    rw [Stmt.contents] at h
    exact Simple.faithful hleaf htype h
  | conditional line condition body arms otherwise =>
    simp only [Stmt.depth, Nat.add_le_add_iff_right, Nat.max_le] at hdepth
    simp only [Stmt.contents, List.forall_mem_cons, List.forall_mem_append] at h
    obtain ⟨hcondition, ⟨hbody, harms⟩, hotherwise⟩ := h
    have hbody := Stmts.faithful hbelow hdepth.1 hbody
    have harms : ∀ a ∈ arms, (Arm.shape leaf below "struct Elsif" "cond").Faithful a :=
      Arms.faithful hbelow (by decide) hdepth.2.1 harms
    have hotherwise := Stmts.faithful hbelow hdepth.2.2 hotherwise
    refine ⟨rfl, by simp, ?_⟩
    simpa using And.intro hcondition (And.intro hbody (And.intro harms hotherwise))
  | choice line operand number arms hasElse otherwise =>
    simp only [Stmt.depth, Nat.add_le_add_iff_right, Nat.max_le] at hdepth
    simp only [Stmt.contents, List.forall_mem_append, forall_mem_toList_map] at h
    obtain ⟨⟨hoperand, harms⟩, hotherwise⟩ := h
    have harms : ∀ a ∈ arms, (Arm.shape leaf below "struct CaseWhen" "expr").Faithful a :=
      Arms.faithful hbelow (by decide) hdepth.1 harms
    have hotherwise := Stmts.faithful hbelow hdepth.2 hotherwise
    refine ⟨rfl, by simp, ?_⟩
    simpa [hleaf] using And.intro hoperand (And.intro harms hotherwise)
  | loop line label head body =>
    rw [Stmt.depth] at hdepth
    rw [Stmt.contents, List.forall_mem_append] at h
    exact LoopHead.faithful hleaf htype h.1 (Stmts.faithful hbelow (by omega) h.2)

theorem Stmt.variants_tags_nodup (datum : Shape Datum) :
    (Stmt.variants leaf datum below).tags.Nodup := by
  -- The tags are the same whatever the shapes are.
  show (Stmt.variants .exhausted .exhausted .exhausted).tags.Nodup
  decide +kernel

/-- **A shape is faithful to the statements that have no more levels than it**, if the shapes of leaves
and types are faithful to their contents. -/
theorem Stmt.faithful (hleaf : leaf.Solid) (htype : type.Solid) (level : Nat) :
    Stmt.FaithfulUpTo leaf type (Stmt.shape leaf (Datum.shape leaf type) level) level := by
  induction level with
  | zero =>
    intro s hdepth
    cases s <;> simp [Stmt.depth] at hdepth
  | succ level ih =>
    intro s hdepth h
    exact ⟨Stmt.variants_tags_nodup _, Stmt.variants_faithful hleaf htype ih hdepth h⟩

theorem Function.faithful (hleaf : leaf.Solid) (htype : type.Solid)
    (hbelow : Stmt.FaithfulUpTo leaf type below level) {f : Function} (hdepth : f.action.depth ≤ level)
    (hdata : ∀ x ∈ f.data.flatMap Datum.contents, x.Faithful leaf type)
    (haction : ∀ x ∈ f.action.contents, x.Faithful leaf type) :
    (Function.shape (Datum.shape leaf type) below).Faithful f := by
  have hdata : ∀ d ∈ f.data, (Datum.shape leaf type).Faithful d := by
    intro d hd
    refine Datum.faithful hleaf htype ?_
    intro x hx
    exact hdata x (List.mem_flatMap_of_mem hd hx)
  refine ⟨rfl, by simp, ?_⟩
  simpa using And.intro hdata (Block.faithful hbelow hdepth haction)

end

namespace ParseTree

theorem action_depth_le {t : ParseTree} : ∀ f ∈ t, f.action.depth ≤ t.depth := by
  induction t with
  | nil =>
    intro f hf
    cases hf
  | cons g t ih =>
    intro f hf
    rw [depth]
    rcases List.mem_cons.1 hf with rfl | hf
    · exact Nat.le_max_left ..
    · exact Nat.le_trans (ih f hf) (Nat.le_max_right ..)

/-! ## Parse trees -/

/-- The modes of all leaves. -/
def modes (t : ParseTree) : List ParseMode := t.contents.filterMap Slot.mode?

/-- The codecs read back all parsed SQL. -/
def SqlRoundTrips (sql : Sql.Codecs) (t : ParseTree) : Prop := ∀ x ∈ t.contents, x.RoundTrips sql

/-- Shapes of leaves and types that are faithful to the contents of a tree make up a shape that is faithful to
the tree. -/
theorem faithful_of_contents {leaf : Shape Leaf} {type : Shape TypeRef} (hleaf : leaf.Solid)
    (htype : type.Solid) {t : ParseTree} (hcontents : ∀ x ∈ t.contents, x.Faithful leaf type) :
    (format leaf type t.depth).Faithful t := by
  refine Shape.faithful_taggedList.2 ?_
  intro f hf
  have hf' : ∀ x ∈ f.data.flatMap Datum.contents ++ f.action.contents, _ :=
    fun x hx => hcontents x (List.mem_flatMap_of_mem hf hx)
  rw [List.forall_mem_append] at hf'
  refine Function.faithful hleaf htype ?_ (action_depth_le f hf) hf'.1 hf'.2
  exact Stmt.faithful hleaf htype t.depth

/-- The shape that a tree is written with is faithful to it. -/
theorem faithful {sql : Sql.Codecs} {t : ParseTree} (hsql : t.SqlRoundTrips sql)
    (hmodes : ∀ m ∈ t.modes, m.IsKnown) : (shape sql t.depth).Faithful t := by
  refine faithful_of_contents Leaf.solid_shape TypeRef.solid_shape ?_
  intro x hx
  refine Slot.faithful ?_ (hsql x hx)
  intro m hm
  exact hmodes m (List.mem_filterMap.2 ⟨x, hx, hm⟩)

/-- The trees of this library are read back if their numbers are of 64 bits. -/
theorem sqlRoundTrips_codecs {t : ParseTree} (h : ∀ x ∈ t.contents, ∀ n ∈ x.numbers, Sql.Fits n) :
    t.SqlRoundTrips Sql.codecs :=
  fun x hx => Slot.roundTrips_codecs (h x hx)

end ParseTree

/-- **Decoding undoes encoding.** A tree is read back from its text as it was, whatever its statements, data and
leaves, if no mode without a name has the code of one with a name and the text is not nested deeper than text may
be. Parsed SQL may be written in any way from which it is read back. -/
theorem decoding_undoes_encoding {sql : Sql.Codecs} {t : ParseTree} (hsql : t.SqlRoundTrips sql)
    (hmodes : ∀ m ∈ t.modes, m.IsKnown) (hdepth : (t.toValue sql).depth < Json.maxRoom) :
    ParseTree.ofText (t.toJson sql) sql = .ok t := by
  -- The tree is written with its own levels and read with those of text. Below the depth that text may
  -- have the two shapes agree.
  obtain ⟨hfaithful, hwrite⟩ :=
    ParseTree.shape_refines sql Json.maxRoom t.depth t (ParseTree.faithful hsql hmodes) hdepth
  have hwrite : (ParseTree.textShape sql).write t = t.toValue sql := hwrite
  have hparse : (ParseTree.textShape sql).parse (t.toJson sql) = .ok t := by
    rw [ParseTree.toJson, ← hwrite]
    refine Shape.parse_write hfaithful ?_
    rw [hwrite]
    exact hdepth
  rw [ParseTree.ofText, hparse]

/-- A routine with a handler and a mode that has no name. Its leaves are raw and hydrated, and what hydration found
is a type, a statement, an expression and the two sides of an assignment. -/
def tally : ParseTree :=
  [⟨[.scalar ⟨"total", 2, some (.raw "int8"), false, true,
        some (.hydrated "0" .expression (.expression (.literal (.number "0" false)))), none, none, 0⟩,
      .record ⟨"note", none, 2, some (.hydrated "pg_catalog.text" (.builtin "TEXT") none)⟩],
    ⟨3, some "main",
      [.simple 4 (.assign 0 (.hydrated "total := total + 1" .assign1
          (.assignment "total" "total + 1" (some (.identifier (.plain "total")))
            (some (.binary "+" (.identifier ⟨"total", none, ⟨1, 1⟩, ⟨1, 6⟩⟩)
              (.literal (.number "1" false))))))),
        .simple 5 (.execute (.hydrated "SAVEPOINT before" .statement
          (.statement (.savepoint ⟨"before", none, ⟨1, 11⟩, ⟨1, 17⟩⟩))) ⟨false, false, none⟩),
        .simple 6 (.perform (.raw "audit(total)" (.other 7)))],
      some [⟨7, ["others"], [.simple 8 (.raise ⟨18⟩ none (some "%") [.raw "total" .expression] [])]⟩]⟩⟩]

theorem decoding_undoes_encoding_tally :
    tally.SqlRoundTrips Sql.codecs ∧ (∀ m ∈ tally.modes, m.IsKnown) ∧
      (tally.toValue Sql.codecs).depth < Json.maxRoom ∧
      ParseTree.ofText (tally.toJson Sql.codecs) Sql.codecs = .ok tally := by
  have hsql : tally.SqlRoundTrips Sql.codecs := by
    have hnumbers : ∀ x ∈ tally.contents, ∀ n ∈ x.numbers, n ≤ Json.Numeral.maxUnsigned := by decide +kernel
    exact ParseTree.sqlRoundTrips_codecs hnumbers
  have hmodes : ∀ m ∈ tally.modes, m.IsKnown := by
    have heq : tally.modes = [.expression, .assign1, .statement, .other 7, .expression] := rfl
    rw [heq]
    simp [ParseMode.IsKnown]
  have hdepth : (tally.toValue Sql.codecs).depth < Json.maxRoom := by decide +kernel
  exact ⟨hsql, hmodes, hdepth, decoding_undoes_encoding hsql hmodes hdepth⟩

end Routine
