import Mathlib.Data.List.Nodup
import Routine.Hydration.Edit

/-!
# Paths tell leaves apart

A path is handed around in words: in reports, and to say which leaf is meant. So two leaves must not have
paths that read the same, and this takes two things.

* **Words tell paths apart** (`Path.render_inj`). The dots between steps and the brackets around indices
  can be told from the names only because no name has them; the names of members are plain.
* **Paths tell leaves apart** (`ParseTree.slots_spread`). Two leaves part at some step on the way down: at
  different members of one node, or at different items of one list.

The second is an induction over the tree with one invariant, `Spread p S`: the slots stand below `p`, their
first steps from there satisfy `S`, and no two have one path. Slots below members with different names are
put together by `Spread.append`, those of the items of a list by `Spread.cons_item`, and a node is hung below
its own step by `Spread.below`.
-/

namespace Routine

/-! ## Words tell paths apart -/

/-- The name has neither dots nor brackets. -/
def IsPlainName (name : String) : Prop := '.' ∉ name.toList ∧ '[' ∉ name.toList

instance (name : String) : Decidable (IsPlainName name) :=
  inferInstanceAs (Decidable (_ ∧ _))

namespace Step

/-- The name of the step is plain. -/
def IsPlain (s : Step) : Prop := IsPlainName s.name

/-- What stands after the name. -/
def bracket : Option Nat → List Char
  | none => []
  | some i => '[' :: (Nat.toDigits 10 i ++ [']'])

theorem toList_render (s : Step) : s.render.toList = s.name.toList ++ bracket s.index := by
  obtain ⟨name, index⟩ := s
  cases index with
  | none => simp [render, bracket]
  | some i => simp [render, bracket]

theorem not_mem_toDigits {c : Char} (hc : c.isDigit = false) (n : Nat) : c ∉ Nat.toDigits 10 n := by
  intro hmem
  rw [Nat.isDigit_of_mem_toDigits (by decide) (by decide) hmem] at hc
  cases hc

theorem dot_not_mem_render {s : Step} (h : s.IsPlain) : '.' ∉ s.render.toList := by
  rw [toList_render, List.mem_append]
  rintro (hname | hbracket)
  · exact h.1 hname
  · cases hindex : s.index with
    | none => simp [hindex, bracket] at hbracket
    | some i =>
      have hdigits : '.' ∉ Nat.toDigits 10 i := not_mem_toDigits rfl i
      simp [hindex, bracket, hdigits] at hbracket

theorem bracket_inj {i j : Nat} (h : bracket (some i) = bracket (some j)) : i = j := by
  have hdigits : Nat.toDigits 10 i = Nat.toDigits 10 j := List.append_cancel_right (List.cons.inj h).2
  rw [← Nat.ofDigitChars_ten_toDigits (n := i), hdigits, Nat.ofDigitChars_ten_toDigits]

theorem render_inj {s s' : Step} (h : s.IsPlain) (h' : s'.IsPlain) (heq : s.render = s'.render) : s = s' := by
  have hlist : s.name.toList ++ bracket s.index = s'.name.toList ++ bracket s'.index := by
    rw [← toList_render, ← toList_render, heq]
  obtain ⟨name, index⟩ := s
  obtain ⟨name', index'⟩ := s'
  cases index with
  | none =>
    cases index' with
    | none =>
      have hname : name.toList = name'.toList := by simpa [bracket] using hlist
      rw [String.toList_inj.1 hname]
    | some j =>
      -- A bracket on one side only would be part of the name on the other.
      refine absurd ?_ h.2
      have hname : name.toList = name'.toList ++ bracket (some j) := by simpa [bracket] using hlist
      simp [hname, bracket]
  | some i =>
    cases index' with
    | none =>
      refine absurd ?_ h'.2
      have hname : name'.toList = name.toList ++ bracket (some i) := by simpa [bracket] using hlist.symm
      simp [hname, bracket]
    | some j =>
      have hrest : '[' ∉ Nat.toDigits 10 i ++ [']'] := by
        simp [not_mem_toDigits (c := '[') rfl i]
      obtain ⟨hname, -, hdigits⟩ := (List.append_cons_inj_of_notMem h.2 hrest).1 hlist
      obtain rfl : name = name' := String.toList_inj.1 hname
      rw [bracket_inj (congrArg (List.cons '[') hdigits)]

end Step

namespace Path

theorem eq_of_map_render {p q : Path} (hp : ∀ s ∈ p, s.IsPlain) (hq : ∀ s ∈ q, s.IsPlain)
    (h : p.map Step.render = q.map Step.render) : p = q := by
  induction p generalizing q with
  | nil => exact (List.map_eq_nil_iff.1 h.symm).symm
  | cons s p ih =>
    cases q with
    | nil => cases h
    | cons s' q =>
      obtain ⟨hs, hp⟩ := List.forall_mem_cons.1 hp
      obtain ⟨hs', hq⟩ := List.forall_mem_cons.1 hq
      obtain ⟨hstep, hrest⟩ := List.cons.inj h
      rw [Step.render_inj hs hs' hstep, ih hp hq hrest]

theorem splitOn_render {p : Path} (hne : p ≠ []) (hp : ∀ s ∈ p, s.IsPlain) :
    p.render.toList.splitOn '.' = p.map fun s => s.render.toList := by
  have hlist : p.render.toList = ['.'].intercalate (p.map fun s => s.render.toList) := by
    rw [render, String.toList_intercalate, List.map_map]
    rfl
  rw [hlist]
  refine List.splitOn_intercalate '.' ?_ (by simpa using hne.symm)
  intro l hl
  obtain ⟨s, hs, rfl⟩ := List.mem_map.1 hl
  exact Step.dot_not_mem_render (hp s hs)

/-- Paths of plain names that read the same are the same. -/
theorem render_inj {p q : Path} (hp : p ≠ []) (hq : q ≠ []) (hplain : ∀ s ∈ p, s.IsPlain)
    (hplain' : ∀ s ∈ q, s.IsPlain) (h : p.render = q.render) : p = q := by
  apply eq_of_map_render hplain hplain'
  have hsteps : (p.map fun s => s.render.toList) = q.map fun s => s.render.toList := by
    rw [← splitOn_render hp hplain, h, splitOn_render hq hplain']
  have hwords : (p.map Step.render).map String.toList = (q.map Step.render).map String.toList := by
    rw [List.map_map, List.map_map]
    exact hsteps
  exact (List.map_inj_right fun _ _ => String.toList_inj.1).1 hwords

end Path

/-! ## Slots below a path -/

/-- The slots stand below the path, by first steps of the kind and plain names, and no two at one path. -/
structure Spread (p : Path) (S : Step → Prop) (xs : List Placed) : Prop where
  heads : ∀ x ∈ xs, ∃ s rest, S s ∧ (∀ s' ∈ s :: rest, s'.IsPlain) ∧ x.1 = p ++ s :: rest
  distinct : (xs.map Prod.fst).Nodup

/-- The step is to a member with one of the names. -/
def Named (names : List String) (s : Step) : Prop := s.name ∈ names

/-- The step is to an item of the list, from the index on. -/
def ItemFrom (name : String) (i : Nat) (s : Step) : Prop := ∃ j, i ≤ j ∧ s = .item name j

namespace Spread

variable {p : Path} {S T : Step → Prop} {xs ys : List Placed}

theorem nil : Spread p S [] := ⟨List.forall_mem_nil _, List.nodup_nil⟩

theorem mono (h : Spread p S xs) (hST : ∀ s, S s → T s) : Spread p T xs := by
  refine ⟨?_, h.distinct⟩
  intro x hx
  obtain ⟨s, rest, hs, hplain, hpath⟩ := h.heads x hx
  exact ⟨s, rest, hST s hs, hplain, hpath⟩

/-- Slots that part at the first step have different paths. -/
theorem append (hx : Spread p S xs) (hy : Spread p T ys) (h : ∀ s, S s → ¬ T s) :
    Spread p (fun s => S s ∨ T s) (xs ++ ys) := by
  constructor
  · intro x hmem
    rcases List.mem_append.1 hmem with hmem | hmem
    · exact (hx.mono fun _ => Or.inl).heads x hmem
    · exact (hy.mono fun _ => Or.inr).heads x hmem
  · rw [List.map_append, List.nodup_append]
    refine ⟨hx.distinct, hy.distinct, ?_⟩
    intro q hleft q' hright hpaths
    obtain ⟨x, hxmem, rfl⟩ := List.mem_map.1 hleft
    obtain ⟨y, hymem, rfl⟩ := List.mem_map.1 hright
    obtain ⟨s, rest, hs, -, hpath⟩ := hx.heads x hxmem
    obtain ⟨s', rest', hs', -, hpath'⟩ := hy.heads y hymem
    rw [hpath, hpath'] at hpaths
    obtain ⟨rfl, -⟩ := List.cons.inj (List.append_cancel_left hpaths)
    exact h _ hs hs'

theorem append_named {names names' : List String} (hx : Spread p (Named names) xs)
    (hy : Spread p (Named names') ys) (h : names.Disjoint names') :
    Spread p (Named (names ++ names')) (xs ++ ys) :=
  (hx.append hy fun _ hs hs' => h hs hs').mono fun _ => List.mem_append.2

/-- One slot right below the path. -/
theorem single {s : Step} (hs : s.IsPlain) (slot : Slot) : Spread p (· = s) [(p ++ [s], slot)] := by
  refine ⟨?_, by simp⟩
  intro x hx
  rw [List.mem_singleton.1 hx]
  exact ⟨s, [], rfl, by simpa using hs, rfl⟩

/-- Slots below a step of the path stand below the path. -/
theorem below {s : Step} (hs : s.IsPlain) (h : Spread (p ++ [s]) S xs) : Spread p (· = s) xs := by
  refine ⟨?_, h.distinct⟩
  intro x hx
  obtain ⟨s', rest, -, hplain, hpath⟩ := h.heads x hx
  refine ⟨s, s' :: rest, rfl, List.forall_mem_cons.2 ⟨hs, hplain⟩, ?_⟩
  rw [hpath, List.append_assoc]
  rfl

theorem single_member {name : String} (hname : IsPlainName name) (slot : Slot) :
    Spread p (Named [name]) [(p.member name, slot)] := by
  refine (single (s := .member name) hname slot).mono ?_
  rintro s rfl
  exact List.mem_singleton_self name

theorem below_member {name : String} (hname : IsPlainName name)
    (h : Spread (p.member name) S xs) : Spread p (Named [name]) xs := by
  refine (below (s := .member name) hname h).mono ?_
  rintro s rfl
  exact List.mem_singleton_self name

theorem below_item {name : String} {i : Nat} (hname : IsPlainName name)
    (h : Spread (p.item name i) S xs) : Spread p (· = .item name i) xs :=
  below (s := .item name i) hname h

/-- The slots of an item, before those of the items after it. -/
theorem cons_item {name : String} {i : Nat} (hx : Spread p (· = .item name i) xs)
    (hy : Spread p (ItemFrom name (i + 1)) ys) : Spread p (ItemFrom name i) (xs ++ ys) := by
  refine (hx.append hy ?_).mono ?_
  · rintro s rfl ⟨j, hj, heq⟩
    have hij : i = j := Option.some.inj (congrArg Step.index heq)
    omega
  · rintro s (rfl | ⟨j, hj, rfl⟩)
    · exact ⟨i, Nat.le_refl i, rfl⟩
    · exact ⟨j, Nat.le_of_succ_le hj, rfl⟩

theorem named_of_items {name : String} {i : Nat} (h : Spread p (ItemFrom name i) xs) :
    Spread p (Named [name]) xs := by
  refine h.mono ?_
  rintro s ⟨j, -, rfl⟩
  exact List.mem_singleton_self name

theorem named_mono {names names' : List String} (h : Spread p (Named names) xs)
    (hsub : names ⊆ names') : Spread p (Named names') xs :=
  h.mono fun _ hs => hsub hs

theorem any (h : Spread p S xs) : Spread p (fun _ => True) xs := h.mono fun _ _ => trivial

end Spread

/-! ## One leaf, and lists of leaves -/

section

variable (p : Path)

theorem leafSlot_spread (name : String) (hname : IsPlainName name) (l : Leaf) :
    Spread p (Named [name]) (leafSlot p name l) :=
  .single_member hname (.leaf l)

theorem leafSlot?_spread (name : String) (hname : IsPlainName name) (l : Option Leaf) :
    Spread p (Named [name]) (leafSlot? p name l) := by
  cases l with
  | none => exact .nil
  | some l => exact .single_member hname (.leaf l)

theorem typeSlot?_spread (name : String) (hname : IsPlainName name) (t : Option TypeRef) :
    Spread p (Named [name]) (typeSlot? p name t) := by
  cases t with
  | none => exact .nil
  | some t => exact .single_member hname (.type t)

theorem itemSlots_spread (name : String) (hname : IsPlainName name) (i : Nat) (ls : List Leaf) :
    Spread p (ItemFrom name i) (itemSlots p name i ls) := by
  induction ls generalizing i with
  | nil => exact .nil
  | cons l ls ih => exact (Spread.single (s := .item name i) hname (.leaf l)).cons_item (ih (i + 1))

theorem parameters_spread (ls : List Leaf) : Spread p (Named ["params"]) (itemSlots p "params" 0 ls) :=
  (itemSlots_spread p "params" (by decide) 0 ls).named_of_items

theorem optionSlots_spread (i : Nat) (os : List RaiseOption) :
    Spread p (ItemFrom "options" i) (optionSlots p i os) := by
  induction os generalizing i with
  | nil => exact .nil
  | cons o os ih =>
    have hvalue := leafSlot_spread (p.item "options" i) "expr" (by decide) o.value
    exact (Spread.below_item (by decide) hvalue).cons_item (ih (i + 1))

/-! ## Statements -/

theorem Simple.slots_spread (s : Simple) : Spread p (fun _ => True) (s.slots p) := by
  cases s with
  | assign number value => exact (leafSlot_spread p "expr" (by decide) value).any
  | exit isExit label condition => exact (leafSlot?_spread p "cond" (by decide) condition).any
  | ret value number => exact (leafSlot?_spread p "expr" (by decide) value).any
  | returnNext value number => exact (leafSlot?_spread p "expr" (by decide) value).any
  | returnQuery query dynamic parameters =>
    have hqueries := (leafSlot?_spread p "query" (by decide) query).append_named
      (leafSlot?_spread p "dynquery" (by decide) dynamic) (by simp)
    exact (hqueries.append_named (parameters_spread p parameters) (by simp)).any
  | raise severity condition message parameters options =>
    have hoptions := (optionSlots_spread p 0 options).named_of_items
    exact ((parameters_spread p parameters).append_named hoptions (by simp)).any
  | assert condition message =>
    exact ((leafSlot_spread p "cond" (by decide) condition).append_named
      (leafSlot?_spread p "message" (by decide) message) (by simp)).any
  | execute sql into => exact (leafSlot_spread p "sqlstmt" (by decide) sql).any
  | executeDynamic query into parameters =>
    exact ((leafSlot_spread p "query" (by decide) query).append_named (parameters_spread p parameters)
      (by simp)).any
  | getDiagnostics stacked targets => exact .nil
  | openCursor cursor options arguments query dynamic parameters =>
    have hstatic := (leafSlot?_spread p "argquery" (by decide) arguments).append_named
      (leafSlot?_spread p "query" (by decide) query) (by simp)
    have hqueries := hstatic.append_named (leafSlot?_spread p "dynquery" (by decide) dynamic) (by simp)
    exact (hqueries.append_named (parameters_spread p parameters) (by simp)).any
  | fetch target cursor direction count amount isMove severalRows =>
    exact (leafSlot?_spread p "expr" (by decide) amount).any
  | closeCursor cursor => exact .nil
  | perform query => exact (leafSlot_spread p "expr" (by decide) query).any
  | call sql isCall target => exact (leafSlot_spread p "expr" (by decide) sql).any
  | commit chain => exact .nil
  | rollback chain => exact .nil
  | set sql => exact (leafSlot_spread p "expr" (by decide) sql).any

/-- The members of loop heads that are leaves. None of them is the member that the body is. -/
def LoopHead.members : List String :=
  ["cond", "lower", "upper", "step", "query", "argquery", "expr", "params"]

theorem LoopHead.slots_spread (head : LoopHead) : Spread p (Named LoopHead.members) (head.slots p) := by
  cases head with
  | forever => exact .nil
  | whilst condition =>
    exact (leafSlot_spread p "cond" (by decide) condition).named_mono (by simp [LoopHead.members])
  | range target lower upper step reverse =>
    have hbounds := (leafSlot_spread p "lower" (by decide) lower).append_named
      (leafSlot_spread p "upper" (by decide) upper) (by simp)
    have hstep := leafSlot?_spread p "step" (by decide) step
    exact (hbounds.append_named hstep (by simp)).named_mono (by simp [LoopHead.members])
  | query target sql =>
    exact (leafSlot_spread p "query" (by decide) sql).named_mono (by simp [LoopHead.members])
  | cursor target number arguments =>
    exact (leafSlot?_spread p "argquery" (by decide) arguments).named_mono (by simp [LoopHead.members])
  | array number slice value =>
    exact (leafSlot_spread p "expr" (by decide) value).named_mono (by simp [LoopHead.members])
  | dynamic target sql parameters =>
    have hquery := leafSlot_spread p "query" (by decide) sql
    exact (hquery.append_named (parameters_spread p parameters) (by simp)).named_mono
      (by simp [LoopHead.members])

end

-- The induction is on the statements, with the path general: a node is spread below its own path, and its
-- parent hangs it below the step that leads to it.
mutual

theorem Stmt.slots_spread (p : Path) : (s : Stmt) → Spread p (fun _ => True) (s.slots p)
  | .block b => by
    rw [Stmt.slots]
    exact (Block.slots_spread p b).any
  | .simple _ s => by
    rw [Stmt.slots]
    exact Simple.slots_spread p s
  | .conditional _ condition body arms otherwise => by
    rw [Stmt.slots]
    have hcondition := leafSlot_spread p "cond" (by decide) condition
    have hbody := (Stmts.slots_spread p "then_body" (by decide) 0 body).named_of_items
    have harms := (Arms.slots_spread p "elsif_list" "cond" (by decide) (by decide) (by decide) 0
      arms).named_of_items
    have helse := (Stmts.slots_spread p "else_body" (by decide) 0 otherwise).named_of_items
    have hthen := hcondition.append_named hbody (by simp)
    exact ((hthen.append_named harms (by simp)).append_named helse (by simp)).any
  | .choice _ operand _ arms _ otherwise => by
    rw [Stmt.slots]
    have hoperand := leafSlot?_spread p "t_expr" (by decide) operand
    have harms := (Arms.slots_spread p "case_when_list" "expr" (by decide) (by decide) (by decide) 0
      arms).named_of_items
    have helse := (Stmts.slots_spread p "else_stmts" (by decide) 0 otherwise).named_of_items
    exact ((hoperand.append_named harms (by simp)).append_named helse (by simp)).any
  | .loop _ _ head body => by
    rw [Stmt.slots]
    have hbody := (Stmts.slots_spread p "body" (by decide) 0 body).named_of_items
    exact ((LoopHead.slots_spread p head).append_named hbody (by simp [LoopHead.members])).any

theorem Stmts.slots_spread (p : Path) (name : String) (hname : IsPlainName name) (i : Nat) :
    (ss : List Stmt) → Spread p (ItemFrom name i) (Stmts.slots p name i ss)
  | [] => by
    rw [Stmts.slots]
    exact .nil
  | s :: ss => by
    rw [Stmts.slots]
    exact (Spread.below_item hname (Stmt.slots_spread (p.item name i) s)).cons_item
      (Stmts.slots_spread p name hname (i + 1) ss)

theorem Block.slots_spread (p : Path) : (b : Block) → Spread p (Named ["body", "exceptions"]) (b.slots p)
  | ⟨_, _, body, handlers⟩ => by
    rw [Block.slots]
    exact (Stmts.slots_spread p "body" (by decide) 0 body).named_of_items.append_named
      (Handlers.slots?_spread p handlers) (by simp)

theorem Handlers.slots?_spread (p : Path) : (hs : Option (List Handler)) →
    Spread p (Named ["exceptions"]) (Handlers.slots? p hs)
  | none => by
    rw [Handlers.slots?]
    exact .nil
  | some hs => by
    rw [Handlers.slots?]
    exact Spread.below_member (by decide) (Handlers.slots_spread (p.member "exceptions") 0 hs)

theorem Handlers.slots_spread (p : Path) (i : Nat) : (hs : List Handler) →
    Spread p (ItemFrom "exc_list" i) (Handlers.slots p i hs)
  | [] => by
    rw [Handlers.slots]
    exact .nil
  | ⟨_, _, action⟩ :: hs => by
    rw [Handlers.slots]
    have haction := Stmts.slots_spread (p.item "exc_list" i) "action" (by decide) 0 action
    exact (Spread.below_item (by decide) haction).cons_item (Handlers.slots_spread p (i + 1) hs)

theorem Arms.slots_spread (p : Path) (name condition : String) (hname : IsPlainName name)
    (hcondition : IsPlainName condition) (hne : condition ≠ "stmts") (i : Nat) : (as : List Arm) →
    Spread p (ItemFrom name i) (Arms.slots p name condition i as)
  | [] => by
    rw [Arms.slots]
    exact .nil
  | ⟨_, l, body⟩ :: as => by
    rw [Arms.slots]
    have hleaf := leafSlot_spread (p.item name i) condition hcondition l
    have hbody := (Stmts.slots_spread (p.item name i) "stmts" (by decide) 0 body).named_of_items
    exact (Spread.below_item hname (hleaf.append_named hbody (by simpa using hne.symm))).cons_item
      (Arms.slots_spread p name condition hname hcondition hne (i + 1) as)

end

/-! ## Data and routines -/

theorem Datum.slots_spread (p : Path) (d : Datum) : Spread p (fun _ => True) (d.slots p) := by
  cases d with
  | scalar v =>
    have htype := typeSlot?_spread p "datatype" (by decide) v.type
    have hinitial := leafSlot?_spread p "default_val" (by decide) v.initial
    have hquery := leafSlot?_spread p "cursor_explicit_expr" (by decide) v.cursorQuery
    exact ((htype.append_named hinitial (by simp)).append_named hquery (by simp)).any
  | record r => exact (typeSlot?_spread p "datatype" (by decide) r.type).any
  | row r => exact .nil
  | field a => exact .nil

theorem Data.slots_spread (p : Path) (i : Nat) (ds : List Datum) :
    Spread p (ItemFrom "datums" i) (Data.slots p i ds) := by
  induction ds generalizing i with
  | nil => exact .nil
  | cons d ds ih =>
    exact (Spread.below_item (by decide) (Datum.slots_spread (p.item "datums" i) d)).cons_item (ih (i + 1))

theorem Function.slots_spread (i : Nat) (f : Function) :
    Spread (path i) (Named ["datums", "action"]) (f.slots i) := by
  have hdata := (Data.slots_spread (path i) 0 f.data).named_of_items
  have haction := Block.slots_spread ((path i).member "action") f.action
  exact hdata.append_named (Spread.below_member (by decide) haction) (by simp)

namespace ParseTree

variable {t : ParseTree}

theorem slotsFrom_spread (t : ParseTree) (i : Nat) :
    Spread [] (ItemFrom "functions" i) (slotsFrom i t) := by
  induction t generalizing i with
  | nil => exact .nil
  | cons f fs ih =>
    exact (Spread.below_item (p := []) (by decide) (Function.slots_spread i f)).cons_item (ih (i + 1))

/-- The slots of a tree stand at different paths of plain names. -/
theorem slots_spread (t : ParseTree) : Spread [] (ItemFrom "functions" 0) t.slots := slotsFrom_spread t 0

/-- Slots whose paths read the same are the same. -/
theorem eq_of_render_eq {x y : Placed} (hx : x ∈ t.slots) (hy : y ∈ t.slots)
    (h : x.1.render = y.1.render) : x = y := by
  obtain ⟨s, rest, -, hplain, hpath⟩ := t.slots_spread.heads x hx
  obtain ⟨s', rest', -, hplain', hpath'⟩ := t.slots_spread.heads y hy
  rw [List.nil_append] at hpath hpath'
  refine List.inj_on_of_nodup_map t.slots_spread.distinct hx hy ?_
  refine Path.render_inj ?_ ?_ (hpath ▸ hplain) (hpath' ▸ hplain') h
  · rw [hpath]
    exact List.cons_ne_nil s rest
  · rw [hpath']
    exact List.cons_ne_nil s' rest'

/-- A slot is what is found under its path. -/
theorem slot?_of_mem {x : Placed} (hx : x ∈ t.slots) : t.slot? x.1.render = some x.2 := by
  have hsome : (t.slots.find? fun s => s.1.render = x.1.render).isSome := by
    rw [List.find?_isSome]
    exact ⟨x, hx, by simp⟩
  obtain ⟨y, hy⟩ := Option.isSome_iff_exists.1 hsome
  have hrender : y.1.render = x.1.render := by simpa using List.find?_some hy
  rw [slot?, hy, eq_of_render_eq (List.mem_of_find?_eq_some hy) hx hrender, Option.map_some]

end ParseTree
end Routine
