import Routine.Proofs.Acceptance

/-!
# An unknown tag is fatal, and is named

The decoder knows the tags of every family of nodes. If one tag in a value that is decoded is changed to one
that its family does not have, then the value is not decoded any more, and the error names the tag
(`ParseTree.ofJson_retag`); so it is with what a tree is encoded as (`an_unknown_tag_is_named`).

`Shape.nodes` lists the nodes of a value that have a tag: for each the way to it and the tags of its family.
The complaint comes out of everything around the node as it was made. Members are visited in order and the
first complaint counts, so this rests on the members before being accepted, which they are since the whole
value is.
-/

namespace Routine

open Json (Complaint)

namespace Json

/-- A way from a value to one inside it. -/
inductive Edge where
  | item (i : Nat)
  | member (name : String)
deriving DecidableEq, Repr

/-- A node with a tag: the way to it, and the tags that it could have. -/
structure Node where
  path : List Edge
  family : List String
deriving DecidableEq, Repr

/-- The node, seen from the value that is before it. -/
def Node.after (e : Edge) (n : Node) : Node := ⟨e :: n.path, n.family⟩

/-- The value with another tag on the node that the path leads to. -/
def retag (new : String) : List Edge → Json → Json
  | [], obj [(_, v)] => obj [(new, v)]
  | [], str _ => str new
  | .item i :: path, arr vs => arr (vs.modify i fun v => retag new path v)
  | .member name :: path, obj ms =>
    obj (ms.map fun m => (m.1, if m.1 = name then retag new path m.2 else m.2))
  | _, v => v

/-- The nodes in the members of an object. -/
def memberNodes (nodes : String → Json → List Node) : Json → List Node
  | obj ms => ms.flatMap fun m => (nodes m.1 m.2).map (.after (.member m.1))
  | _ => []

/-- The nodes in the items of an array. -/
def itemNodes (nodes : List Json → List Node) : Json → List Node
  | arr vs => nodes vs
  | _ => []

end Json

open Json (Node Edge retag)

mutual

/-- The nodes of a value that have a tag, as far as the value is of the shape. -/
def Shape.nodes : {α : Type} → Shape α → Json → List Node
  | _, .option item, v =>
    match v with
    | .null => []
    | v => item.nodes v
  | _, .list item, v =>
    v.itemNodes fun vs => vs.zipIdx.flatMap fun (v, i) => (item.nodes v).map (.after (.item i))
  | _, .record _ fields, v => v.itemNodes (fields.nodesAt 0) ++ v.memberNodes fields.nodesOf
  | _, .tagged tag item, v =>
    match v with
    | .obj [(name, v)] => ⟨[], [tag]⟩ :: (item.nodes v).map (.after (.member name))
    | _ => []
  | _, .choice variants, v =>
    match v with
    | .obj [(name, v)] => ⟨[], variants.tags⟩ :: (variants.nodesUnder name v).map (.after (.member name))
    | .str _ => [⟨[], variants.tags⟩]
    | _ => []
  | _, .convert _ _ item, v => item.nodes v
  | _, _, _ => []

/-- The nodes in the value of a member. -/
def Fields.nodesOf : {α σ : Type} → Fields α σ → String → Json → List Node
  | _, _, .nil, _, _ => []
  | _, _, .cons name item _ _ _ rest, key, v => if key = name then item.nodes v else rest.nodesOf key v

/-- The nodes in the items that stand for members. `i` members come before these. -/
def Fields.nodesAt : {α σ : Type} → Fields α σ → (i : Nat) → List Json → List Node
  | _, _, .nil, _, _ => []
  | _, _, .cons _ item _ _ _ rest, i, vs =>
    match vs with
    | [] => []
    | v :: vs => (item.nodes v).map (.after (.item i)) ++ rest.nodesAt (i + 1) vs

/-- The nodes in the value under a tag. -/
def Variants.nodesUnder : {α : Type} → Variants α → String → Json → List Node
  | _, .nil, _, _ => []
  | _, .bare tag _ _ rest, name, v => if name = tag then [] else rest.nodesUnder name v
  | _, .holding tag item _ _ rest, name, v => if name = tag then item.nodes v else rest.nodesUnder name v
  | _, .named tag _ fields _ _ rest, name, v =>
    if name = tag then v.memberNodes fields.nodesOf else rest.nodesUnder name v
  | _, .positional tag _ fields _ _ rest, name, v =>
    if name = tag then v.itemNodes (fields.nodesAt 0) else rest.nodesUnder name v

end

/-! ## The complaint comes out -/

section

variable {new : String}

theorem mapM_modify {α : Type} {f : Json → Except Complaint α} {g : Json → Json} {k : Complaint}
    {vs : List Json} {as : List α} {i : Nat} {v : Json} (hvs : List.Forall₂ (fun v a => f v = .ok a) vs as)
    (hv : vs[i]? = some v) (hk : ∀ a, f v = .ok a → f (g v) = .error k) :
    (vs.modify i g).mapM f = .error k := by
  induction hvs generalizing i with
  | nil => simp at hv
  | @cons w a ws as hw _ ih =>
    cases i with
    | zero =>
      obtain rfl := Option.some.inj hv
      rw [List.modify_zero_cons, List.mapM_cons, hk a hw]
      rfl
    | succ i =>
      rw [List.modify_succ_cons, List.mapM_cons, hw, ih hv]
      rfl

namespace Fields

variable {α σ : Type}

/-- The member has been set. -/
def IsSet : {α σ : Type} → Fields α σ → String → σ → Prop
  | _, _, .nil, _, _ => False
  | _, _, .cons own _ _ _ _ rest, name, (x, xs) => if name = own then x.isSome = true else rest.IsSet name xs

theorem isSet_of_setMember : {α σ : Type} → {f : Fields α σ} → {name : String} → {v : Json} →
    {state state' : σ} → name ∈ f.names → f.setMember name v state = .ok state' → f.IsSet name state'
  | _, _, .nil, _, _, _, _, hname, _ => by cases hname
  | _, _, .cons own item _ _ _ rest, name, v, (x, xs), state', hname, hset => by
    rw [setMember] at hset
    by_cases heq : name = own
    · rw [if_pos heq] at hset
      cases x with
      | some b => cases hset
      | none =>
        obtain ⟨a, -, rfl⟩ := map_eq_ok hset
        rw [IsSet, if_pos heq]
        rfl
    · rw [if_neg heq] at hset
      obtain ⟨ys, hys, rfl⟩ := map_eq_ok hset
      rw [IsSet, if_neg heq]
      exact isSet_of_setMember ((List.mem_cons.1 hname).resolve_left heq) hys

theorem IsSet.ne : {α σ : Type} → {f : Fields α σ} → {name key : String} → {v : Json} → {state state' : σ} →
    f.IsSet name state → f.setMember key v state = .ok state' → key ≠ name
  | _, _, .nil, _, _, _, _, _, h, _ => by cases h
  | _, _, .cons own item _ _ _ rest, name, key, v, (x, xs), state', h, hset => by
    rintro rfl
    rw [IsSet] at h
    rw [setMember] at hset
    by_cases heq : key = own
    · rw [if_pos heq] at h hset
      rw [if_pos h] at hset
      cases hset
    · rw [if_neg heq] at h hset
      obtain ⟨ys, hys, rfl⟩ := map_eq_ok hset
      exact IsSet.ne h hys rfl

theorem IsSet.keep : {α σ : Type} → {f : Fields α σ} → {name key : String} → {v : Json} →
    {state state' : σ} → f.IsSet name state → f.setMember key v state = .ok state' → f.IsSet name state'
  | _, _, .nil, _, _, _, _, _, h, _ => by cases h
  | _, _, .cons own item _ _ _ rest, name, key, v, (x, xs), state', h, hset => by
    rw [IsSet] at h
    rw [setMember] at hset
    by_cases hkey : key = own
    · rw [if_pos hkey] at hset
      cases x with
      | some b => cases hset
      | none =>
        obtain ⟨a, -, rfl⟩ := map_eq_ok hset
        rw [IsSet]
        split
        · rfl
        · next hname => rwa [if_neg hname] at h
    · rw [if_neg hkey] at hset
      obtain ⟨ys, hys, rfl⟩ := map_eq_ok hset
      rw [IsSet]
      split
      · next hname => rwa [if_pos hname] at h
      · next hname =>
        rw [if_neg hname] at h
        exact h.keep hys

/-- A member that has been set does not come again. -/
theorem IsSet.foldlM {f : Fields α σ} {name : String} {ms : List (String × Json)} {state state' : σ}
    (h : f.IsSet name state) (hrun : ms.foldlM (fun state m => f.setMember m.1 m.2 state) state = .ok state') :
    ∀ m ∈ ms, m.1 ≠ name := by
  induction ms generalizing state with
  | nil => exact List.forall_mem_nil _
  | cons m ms ih =>
    rw [List.foldlM_cons] at hrun
    cases hset : f.setMember m.1 m.2 state with
    | error k =>
      rw [hset] at hrun
      cases hrun
    | ok next =>
      rw [hset] at hrun
      exact List.forall_mem_cons.2 ⟨h.ne hset, ih (h.keep hset) hrun⟩

theorem mem_names_of_nodesOf : {α σ : Type} → {f : Fields α σ} → {name : String} → {v : Json} → {n : Node} →
    n ∈ f.nodesOf name v → name ∈ f.names
  | _, _, .nil, _, _, _, h => by cases h
  | _, _, .cons own item _ _ _ rest, name, v, n, h => by
    rw [nodesOf] at h
    split at h
    · next heq => exact heq ▸ List.mem_cons_self
    · exact List.mem_cons_of_mem own (mem_names_of_nodesOf h)

/-- A member that complains about the tag stops the run that it was part of. -/
theorem foldlM_retag {f : Fields α σ} {name : String} {v : Json} {n : Node}
    (hmember : ∀ state state', f.setMember name v state = .ok state' →
      f.setMember name (v.retag new n.path) state = .error (.unknownVariant new n.family))
    (hn : n ∈ f.nodesOf name v) {ms : List (String × Json)} {state last : σ} (hv : (name, v) ∈ ms)
    (hrun : ms.foldlM (fun state m => f.setMember m.1 m.2 state) state = .ok last) :
    (ms.map fun m => (m.1, if m.1 = name then m.2.retag new n.path else m.2)).foldlM
      (fun state m => f.setMember m.1 m.2 state) state = .error (.unknownVariant new n.family) := by
  induction ms generalizing state with
  | nil => cases hv
  | cons m ms ih =>
    rw [List.foldlM_cons] at hrun
    cases hset : f.setMember m.1 m.2 state with
    | error k =>
      rw [hset] at hrun
      cases hrun
    | ok next =>
      rw [hset] at hrun
      rw [List.map_cons, List.foldlM_cons]
      rcases List.mem_cons.1 hv with rfl | hlater
      · rw [if_pos rfl, hmember state next hset]
        rfl
      · -- The member is still to come, so this one has another name.
        have hname : m.1 ≠ name := by
          intro heq
          have hisSet := isSet_of_setMember (heq ▸ mem_names_of_nodesOf hn) hset
          exact hisSet.foldlM hrun _ hlater heq.symm
        rw [if_neg hname, hset]
        exact ih hlater hrun

theorem ofMembers_retag {f : Fields α σ} {ms : List (String × Json)} {a : α} {node : Node}
    (h : f.ofMembers f.setMember ms = .ok a) (hnode : node ∈ (Json.obj ms).memberNodes f.nodesOf)
    (hmember : ∀ name v n state state', n ∈ f.nodesOf name v → n.family = node.family →
      f.setMember name v state = .ok state' →
      f.setMember name (v.retag new n.path) state = .error (.unknownVariant new n.family)) :
    ∃ ms', (Json.obj ms).retag new node.path = .obj ms' ∧
      f.ofMembers f.setMember ms' = .error (.unknownVariant new node.family) := by
  obtain ⟨⟨name, v⟩, hv, hnode⟩ := List.mem_flatMap.1 hnode
  obtain ⟨n, hn, rfl⟩ := List.mem_map.1 hnode
  obtain ⟨last, hrun, -⟩ := ofMembers_eq_ok_iff.1 h
  refine ⟨_, rfl, ?_⟩
  rw [ofMembers, foldlM_retag (fun s s' => hmember name v n s s' hn rfl) hn hv hrun]
  rfl

theorem ofArray_retag {f : Fields α σ} (title : String) {vs : List Json} {node : Node}
    (h : ∃ (j : Nat) (n : Node), node = n.after (.item j) ∧
      f.ofItems (counted title f.count) 0 (vs.modify j (retag new n.path)) =
        .error (.unknownVariant new n.family)) :
    ∃ vs', (Json.arr vs).retag new node.path = .arr vs' ∧ vs'.length = vs.length ∧
      f.ofArray title f.ofItems vs' = .error (.unknownVariant new node.family) := by
  obtain ⟨j, n, rfl, herror⟩ := h
  refine ⟨_, rfl, List.length_modify .., ?_⟩
  rw [ofArray, herror]
  rfl

end Fields

theorem Variants.ofTag_eq_none : {α : Type} → {variants : Variants α} → {name : String} →
    name ∉ variants.tags → variants.ofTag name = none
  | _, .nil, _, _ => rfl
  | _, .bare _ _ _ rest, name, h => by
    obtain ⟨hne, h⟩ := not_or.1 (mt List.mem_cons.2 h)
    rw [Variants.ofTag, if_neg hne, Variants.ofTag_eq_none h]
  | _, .holding _ _ _ _ rest, name, h => by
    obtain ⟨hne, h⟩ := not_or.1 (mt List.mem_cons.2 h)
    rw [Variants.ofTag, if_neg hne, Variants.ofTag_eq_none h]
  | _, .named _ _ _ _ _ rest, name, h => by
    obtain ⟨hne, h⟩ := not_or.1 (mt List.mem_cons.2 h)
    rw [Variants.ofTag, if_neg hne, Variants.ofTag_eq_none h]
  | _, .positional _ _ _ _ _ rest, name, h => by
    obtain ⟨hne, h⟩ := not_or.1 (mt List.mem_cons.2 h)
    rw [Variants.ofTag, if_neg hne, Variants.ofTag_eq_none h]

theorem retag_ne_null {path : List Edge} {v : Json} (h : v ≠ .null) : v.retag new path ≠ .null := by
  unfold retag
  split
  · exact Json.noConfusion
  · exact Json.noConfusion
  · exact Json.noConfusion
  · exact Json.noConfusion
  · exact h

theorem ofJson_option {α : Type} {item : Shape α} {v : Json} (h : v ≠ .null) :
    (Shape.option item).ofJson v = (item.ofJson v).map some := by
  cases v with
  | null => exact absurd rfl h
  | _ => rfl

-- The recursion is that of the decoder, on the shape.
mutual

/-- **A tag that is not known is complained about**, wherever it is put into a value that is decoded. -/
theorem Shape.ofJson_retag : {α : Type} → (s : Shape α) → {v : Json} → {a : α} → {node : Node} →
    s.ofJson v = .ok a → node ∈ s.nodes v → new ∉ node.family →
    s.ofJson (v.retag new node.path) = .error (.unknownVariant new node.family)
  | _, .option item, v, a, node, hok, hnode, hnew => by
    by_cases hnull : v = .null
    · subst hnull
      cases hnode
    · rw [ofJson_option hnull] at hok
      obtain ⟨b, hb, -⟩ := map_eq_ok hok
      have hnode : node ∈ item.nodes v := by
        cases v with
        | null => exact absurd rfl hnull
        | _ => exact hnode
      rw [ofJson_option (retag_ne_null hnull), Shape.ofJson_retag item hb hnode hnew]
      rfl
  | _, .list item, v, as, node, hok, hnode, hnew => by
    cases v with
    | arr vs =>
      rw [Shape.ofJson, mapM_eq_ok_iff] at hok
      obtain ⟨⟨w, i⟩, hw, hnode⟩ := List.mem_flatMap.1 hnode
      obtain ⟨n, hn, rfl⟩ := List.mem_map.1 hnode
      have hget : vs[i]? = some w := List.mem_zipIdx_iff_getElem?.1 hw
      exact mapM_modify hok hget fun a ha => Shape.ofJson_retag item ha hn hnew
    | _ => cases hok
  | _, .record title fields, v, a, node, hok, hnode, hnew => by
    cases v with
    | obj ms =>
      have hnode := (List.mem_append.1 hnode).resolve_left List.not_mem_nil
      obtain ⟨ms', hretag, herror⟩ := Fields.ofMembers_retag hok hnode
        fun name v n state state' hn hfamily hset => Fields.setMember_retag fields hset hn (hfamily ▸ hnew)
      rw [hretag]
      exact herror
    | arr vs =>
      have hnode := (List.mem_append.1 hnode).resolve_right List.not_mem_nil
      have hitems := Fields.ofItems_retag fields (Fields.ofArray_eq_ok_iff.1 hok) hnode hnew
      obtain ⟨vs', hretag, -, herror⟩ := Fields.ofArray_retag title (by simpa using hitems)
      rw [hretag]
      exact herror
    | _ => cases hok
  | _, .tagged tag item, v, a, node, hok, hnode, hnew => by
    obtain ⟨w, rfl, hw⟩ := Shape.ofJson_tagged_eq_ok hok
    rcases List.mem_cons.1 hnode with rfl | hnode
    · have hne : new ≠ tag := fun heq => hnew (heq ▸ List.mem_singleton_self tag)
      simp [Json.retag, Shape.ofJson, hne]
    · obtain ⟨n, hn, rfl⟩ := List.mem_map.1 hnode
      have herror := Shape.ofJson_retag item hw hn hnew
      simp [Json.retag, Json.Node.after, Shape.ofJson, herror]
  | _, .choice variants, v, a, node, hok, hnode, hnew => by
    obtain ⟨name, under, payload, rfl, hpayload, ha⟩ := Shape.ofJson_choice_eq_ok hok
    cases under with
    | none =>
      obtain rfl := List.mem_singleton.1 hnode
      simp only [Json.underTag, Json.retag, Shape.ofJson, Variants.ofTag_eq_none hnew]
    | some w =>
      rcases List.mem_cons.1 hnode with rfl | hnode
      · simp only [Json.underTag, Json.retag, Shape.ofJson, Variants.ofTag_eq_none hnew]
      · obtain ⟨n, hn, rfl⟩ := List.mem_map.1 hnode
        have herror := Variants.payload_retag variants hpayload ha hn hnew
        simp only [Json.underTag, Json.Node.after, Json.retag, List.map_cons, List.map_nil, if_true, Shape.ofJson,
          hpayload, herror]
  | _, .convert read back item, v, b, node, hok, hnode, hnew => by
    rw [Shape.ofJson] at hok
    cases ha : item.ofJson v with
    | error k =>
      rw [ha] at hok
      cases hok
    | ok a => rw [Shape.ofJson, Shape.ofJson_retag item ha hnode hnew]

theorem Fields.setMember_retag : {α σ : Type} → (f : Fields α σ) → {name : String} → {v : Json} →
    {state state' : σ} → {n : Node} → f.setMember name v state = .ok state' → n ∈ f.nodesOf name v →
    new ∉ n.family → f.setMember name (v.retag new n.path) state = .error (.unknownVariant new n.family)
  | _, _, .nil, _, _, _, _, _, _, hn, _ => by cases hn
  | _, _, .cons own item _ _ _ rest, name, v, (x, xs), state', n, hset, hn, hnew => by
    rw [Fields.setMember] at hset ⊢
    rw [Fields.nodesOf] at hn
    by_cases heq : name = own
    · rw [if_pos heq] at hset hn ⊢
      cases x with
      | some b => cases hset
      | none =>
        obtain ⟨a, ha, -⟩ := map_eq_ok hset
        rw [if_neg (by simp), Shape.ofJson_retag item ha hn hnew]
        rfl
    · rw [if_neg heq] at hset hn ⊢
      obtain ⟨ys, hys, -⟩ := map_eq_ok hset
      rw [Fields.setMember_retag rest hys hn hnew]
      rfl

theorem Fields.ofItems_retag : {α σ : Type} → (f : Fields α σ) → {expected : String} → {i : Nat} →
    {vs left : List Json} → {a : α} → {node : Node} → f.ofItems expected i vs = .ok (a, left) →
    node ∈ f.nodesAt i vs → new ∉ node.family → ∃ (j : Nat) (n : Node), node = n.after (.item (i + j)) ∧
      f.ofItems expected i (vs.modify j (retag new n.path)) = .error (.unknownVariant new n.family)
  | _, _, .nil, _, _, _, _, _, _, _, hnode, _ => by cases hnode
  | _, _, .cons _ item _ _ _ rest, _, _, [], _, _, _, _, hnode, _ => by cases hnode
  | _, _, .cons _ item _ _ _ rest, expected, i, v :: vs, left, a, node, hok, hnode, hnew => by
    simp only [Fields.ofItems] at hok
    cases hv : item.ofJson v with
    | error k =>
      rw [hv] at hok
      cases hok
    | ok b =>
      simp only [hv] at hok
      obtain ⟨⟨c, ws⟩, hc, -⟩ := map_eq_ok hok
      rcases List.mem_append.1 hnode with hnode | hnode
      · obtain ⟨n, hn, rfl⟩ := List.mem_map.1 hnode
        refine ⟨0, n, rfl, ?_⟩
        rw [List.modify_zero_cons]
        simp only [Fields.ofItems, Shape.ofJson_retag item hv hn hnew]
      · obtain ⟨j, n, rfl, herror⟩ := Fields.ofItems_retag rest hc hnode hnew
        refine ⟨j + 1, n, by rw [Nat.add_assoc, Nat.add_comm 1 j], ?_⟩
        rw [List.modify_succ_cons]
        simp only [Fields.ofItems, hv, herror]
        rfl

theorem Variants.payload_retag : {α : Type} → (variants : Variants α) → {name : String} →
    {payload : Option Json → Except Complaint α} → {w : Json} → {a : α} → {n : Node} →
    variants.ofTag name = some payload → payload (some w) = .ok a → n ∈ variants.nodesUnder name w →
    new ∉ n.family → payload (some (w.retag new n.path)) = .error (.unknownVariant new n.family)
  | _, .nil, _, _, _, _, _, _, _, hn, _ => by cases hn
  | _, .bare tag _ _ rest, name, payload, w, a, n, hpayload, ha, hn, hnew => by
    rw [Variants.ofTag] at hpayload
    rw [Variants.nodesUnder] at hn
    by_cases heq : name = tag
    · rw [if_pos heq] at hn
      cases hn
    · rw [if_neg heq] at hpayload hn
      exact Variants.payload_retag rest hpayload ha hn hnew
  | _, .holding tag item inject _ rest, name, payload, w, a, n, hpayload, ha, hn, hnew => by
    rw [Variants.ofTag] at hpayload
    rw [Variants.nodesUnder] at hn
    by_cases heq : name = tag
    · rw [if_pos heq] at hpayload hn
      obtain rfl := Option.some.inj hpayload
      obtain ⟨b, hb, -⟩ := map_eq_ok ha
      simp only [Shape.ofJson_retag item hb hn hnew]
      rfl
    · rw [if_neg heq] at hpayload hn
      exact Variants.payload_retag rest hpayload ha hn hnew
  | _, .named tag _ f inject _ rest, name, payload, w, a, n, hpayload, ha, hn, hnew => by
    rw [Variants.ofTag] at hpayload
    rw [Variants.nodesUnder] at hn
    by_cases heq : name = tag
    · rw [if_pos heq] at hpayload hn
      obtain rfl := Option.some.inj hpayload
      cases w with
      | obj ms =>
        obtain ⟨b, hb, -⟩ := map_eq_ok ha
        obtain ⟨ms', hretag, herror⟩ := Fields.ofMembers_retag hb hn
          fun name v n' state state' hn hfamily hset => Fields.setMember_retag f hset hn (hfamily ▸ hnew)
        rw [hretag]
        simp only [herror]
        rfl
      | _ => cases hn
    · rw [if_neg heq] at hpayload hn
      exact Variants.payload_retag rest hpayload ha hn hnew
  | _, .positional tag title f inject _ rest, name, payload, w, a, n, hpayload, ha, hn, hnew => by
    rw [Variants.ofTag] at hpayload
    rw [Variants.nodesUnder] at hn
    by_cases heq : name = tag
    · rw [if_pos heq] at hpayload hn
      obtain rfl := Option.some.inj hpayload
      cases w with
      | arr vs =>
        cases vs with
        | nil => cases ha
        | cons v vs =>
          obtain ⟨b, hb, -⟩ := map_eq_ok ha
          have hitems := Fields.ofItems_retag f (Fields.ofArray_eq_ok_iff.1 hb) hn hnew
          obtain ⟨vs', hretag, hlength, herror⟩ := Fields.ofArray_retag title (by simpa using hitems)
          obtain ⟨v', ws, rfl⟩ := List.exists_cons_of_length_eq_add_one hlength
          rw [hretag]
          simp only [herror]
          rfl
      | _ => cases hn
    · rw [if_neg heq] at hpayload hn
      exact Variants.payload_retag rest hpayload ha hn hnew

end

/-! ## The value around the tag -/

namespace Json

theorem depthItems_modify {g : Json → Json} (h : ∀ v, (g v).depth = v.depth) (i : Nat) (vs : List Json) :
    depthItems (vs.modify i g) = depthItems vs := by
  induction vs generalizing i with
  | nil => rw [List.modify_nil]
  | cons v vs ih =>
    cases i with
    | zero => rw [List.modify_zero_cons, depthItems, depthItems, h]
    | succ i => rw [List.modify_succ_cons, depthItems, depthItems, ih]

theorem depthMembers_map {g : String × Json → Json} (h : ∀ m, (g m).depth = m.2.depth)
    (ms : List (String × Json)) : depthMembers (ms.map fun m => (m.1, g m)) = depthMembers ms := by
  induction ms with
  | nil => rfl
  | cons m ms ih => rw [List.map_cons, depthMembers, depthMembers, h, ih]

theorem mem_modify {g : Json → Json} {i : Nat} {vs : List Json} {w : Json} (h : w ∈ vs.modify i g) :
    w ∈ vs ∨ ∃ v ∈ vs, w = g v := by
  induction vs generalizing i with
  | nil =>
    rw [List.modify_nil] at h
    cases h
  | cons v vs ih =>
    cases i with
    | zero =>
      rw [List.modify_zero_cons] at h
      rcases List.mem_cons.1 h with rfl | h
      · exact .inr ⟨v, List.mem_cons_self, rfl⟩
      · exact .inl (List.mem_cons_of_mem v h)
    | succ i =>
      rw [List.modify_succ_cons] at h
      rcases List.mem_cons.1 h with rfl | h
      · exact .inl List.mem_cons_self
      · rcases ih h with h | ⟨u, hu, heq⟩
        · exact .inl (List.mem_cons_of_mem v h)
        · exact .inr ⟨u, List.mem_cons_of_mem v hu, heq⟩

theorem depth_retag (path : List Edge) (v : Json) : (v.retag new path).depth = v.depth := by
  fun_induction retag new path v with
  | case1 name v => rw [Shape.depth_tagged, Shape.depth_tagged]
  | case2 s => rfl
  | case3 i path vs ih => rw [depth, depth, depthItems_modify ih]
  | case4 name path ms ih =>
    rw [depth, depth, depthMembers_map]
    intro m
    split
    · exact ih m
    · rfl
  | case5 => rfl

/-- A tag is changed without a change in the order of members, which the tag of a node has none beside. -/
theorem canonical_retag {v : Json} (h : v.canonical = v) (path : List Edge) :
    (v.retag new path).canonical = v.retag new path := by
  fun_induction retag new path v with
  | case1 name v =>
    have hv : v.canonical = v := (canonical_obj_eq_iff.1 h).2 (name, v) List.mem_cons_self
    exact congrArg (fun v => obj [(new, v)]) hv
  | case2 s => rfl
  | case3 i path vs ih =>
    rw [canonical_arr_eq_iff] at h ⊢
    intro w hw
    rcases mem_modify hw with hw | ⟨v, hv, rfl⟩
    · exact h w hw
    · exact ih v (h v hv)
  | case4 name path ms ih =>
    rw [canonical_obj_eq_iff] at h ⊢
    refine ⟨List.pairwise_map.2 h.1, ?_⟩
    intro m hm
    obtain ⟨n, hn, rfl⟩ := List.mem_map.1 hm
    dsimp only
    split
    · exact ih n (h.2 n hn)
    · exact h.2 n hn
  | case5 => exact h

end Json

/-! ## The error -/

namespace DecodeError

theorem message_unknownVariant (known : List String) :
    ∃ rest, (Complaint.unknownVariant new known).message.toList =
      unknownLead ++ (new.toList ++ '`' :: rest) := by
  have hmessage : (Complaint.unknownVariant new known).message =
      "unknown variant `" ++ new ++ "`, " ++ Json.oneOf known := rfl
  have htick : "`, ".toList = ['`', ',', ' '] := by decide
  refine ⟨',' :: ' ' :: (Json.oneOf known).toList, ?_⟩
  rw [hmessage, String.toList_append, String.toList_append, String.toList_append, htick, List.append_assoc,
    List.append_assoc]
  rfl

theorem tagHere?_lead (hne : new ≠ "") (htick : '`' ∉ new.toList) (rest : List Char) :
    tagHere? (unknownLead ++ (new.toList ++ '`' :: rest)) = some new := by
  have hlead : unknownLead.isPrefixOf (unknownLead ++ (new.toList ++ '`' :: rest)) = true :=
    List.isPrefixOf_iff_prefix.2 (List.prefix_append _ _)
  have hwhile : (new.toList ++ '`' :: rest).takeWhile (· ≠ '`') = new.toList := by
    rw [List.takeWhile_append_of_pos, List.takeWhile_cons_of_neg (by simp), List.append_nil]
    intro c hc
    exact decide_eq_true fun heq => htick (heq ▸ hc)
  rw [tagHere?, if_pos hlead, List.drop_left]
  simp only [hwhile]
  rw [if_neg, String.ofList_toList]
  simp [hne]

/-- The message about a tag that is not known names the tag. -/
theorem tag?_unknownVariant (known : List String) (hne : new ≠ "") (htick : '`' ∉ new.toList) :
    tag? (Complaint.unknownVariant new known).message.toList = some new := by
  obtain ⟨rest, hrest⟩ := message_unknownVariant known
  have hhere := tagHere?_lead hne htick rest
  obtain ⟨c, cs, hcons⟩ : ∃ c cs, unknownLead ++ (new.toList ++ '`' :: rest) = c :: cs :=
    List.exists_cons_of_ne_nil (by simp)
  rw [hcons] at hrest hhere
  rw [hrest, tag?, hhere]
  rfl

end DecodeError

namespace ParseTree

/-- The nodes of the value of a tree that have a tag. What is inside parsed SQL is not of the tree. -/
def nodes (v : Json) : List Node := (shape Sql.codecs v.depth).nodes v

theorem ofJson_canonical (v : Json) : ofJson v.canonical = ofJson v := by
  simp only [ofJson, Json.canonical_canonical]

/-- **An unknown tag is fatal and is named**, wherever it is put into a value that is decoded. -/
theorem ofJson_retag {v : Json} {t : ParseTree} {node : Node} (hsorted : v.canonical = v) (h : ofJson v = .ok t)
    (hnode : node ∈ nodes v) (hnew : new ∉ node.family) (hne : new ≠ "") (htick : '`' ∉ new.toList) :
    ofJson (v.retag new node.path) = .error (.unknownTag new) := by
  have hvalue := ofJson_eq_ok_iff.1 h
  rw [hsorted] at hvalue
  have herror := Shape.ofJson_retag (shape Sql.codecs v.depth) hvalue hnode hnew
  simp only [ofJson, Json.canonical_retag hsorted, Json.depth_retag, herror]
  rw [DecodeError.ofReport, Json.Complaint.report, DecodeError.tag?_unknownVariant _ hne htick]

end ParseTree

end

/-- **An unknown tag anywhere in an encoded tree is fatal and is named.** Whatever the tree holds, as long as its
leaves hold text, the tag of any one node of its value may be changed to one that the family of the node does not
have: the value is then refused, and the error is that the tag is unknown. -/
theorem an_unknown_tag_is_named {t : ParseTree} (htext : t.HoldsText) {node : Node}
    (hnode : node ∈ ParseTree.nodes t.toValue.canonical) {new : String} (hnew : new ∉ node.family)
    (hne : new ≠ "") (htick : '`' ∉ new.toList) :
    ParseTree.ofJson (t.toValue.canonical.retag new node.path) = .error (.unknownTag new) := by
  obtain ⟨t', ht'⟩ := ParseTree.ofJson_toValue Sql.codecs_agree htext
  rw [← ParseTree.ofJson_canonical] at ht'
  exact ParseTree.ofJson_retag (Json.canonical_canonical _) ht' hnode hnew hne htick

/-- A routine with a node of every family. -/
def guarded : ParseTree :=
  [⟨[.scalar ⟨"n", 1, some (.raw "int4"), false, false, none, none, none, 0⟩],
    ⟨2, none,
      [.conditional 3 (.raw "n > 0" .expression) []
        [⟨4, .raw "n < 0" .expression,
          [.choice 5 (some (.raw "n" .expression)) 0
            [⟨6, .raw "1" (.other 2), [.simple 7 (.getDiagnostics false [⟨.rowCount, 0⟩])]⟩] false []]⟩] []],
      some [⟨8, ["others"],
        [.simple 9 (.raise .exception none none [] [⟨.hint, .raw "'retry'" .expression⟩])]⟩]⟩⟩]

-- Families are told apart by their last tags.
example : ((ParseTree.nodes guarded.toValue.canonical).map fun n => n.family.getLastD "").eraseDups =
    ["PLpgSQL_function", "PLpgSQL_stmt_block", "PLpgSQL_stmt_set", "Hydrated", "PLpgSQL_if_elsif",
      "PLpgSQL_case_when", "PLpgSQL_diag_item", "PLpgSQL_exception_block", "PLpgSQL_exception",
      "PLpgSQL_raise_option", "PLpgSQL_condition", "PLpgSQL_recfield", "HydratedTypeName"] := by
  decide +kernel

/-- The item of the diagnostics, in an arm of an arm. -/
def guarded.diagnostics : Node where
  path := [.item 0, .member "PLpgSQL_function", .member "action", .member "PLpgSQL_stmt_block",
    .member "body", .item 0, .member "PLpgSQL_stmt_if", .member "elsif_list", .item 0,
    .member "PLpgSQL_if_elsif", .member "stmts", .item 0, .member "PLpgSQL_stmt_case",
    .member "case_when_list", .item 0, .member "PLpgSQL_case_when", .member "stmts", .item 0,
    .member "PLpgSQL_stmt_getdiag", .member "diag_items", .item 0]
  family := ["PLpgSQL_diag_item"]

theorem an_unknown_tag_is_named_guarded :
    guarded.HoldsText ∧ guarded.diagnostics ∈ ParseTree.nodes guarded.toValue.canonical ∧
      ParseTree.ofJson (guarded.toValue.canonical.retag "PLpgSQL_stmt_getdiag" guarded.diagnostics.path) =
        .error (.unknownTag "PLpgSQL_stmt_getdiag") := by
  have htext : guarded.HoldsText := by decide
  have hnode : guarded.diagnostics ∈ ParseTree.nodes guarded.toValue.canonical := by decide +kernel
  exact ⟨htext, hnode, an_unknown_tag_is_named htext hnode (by decide) (by decide) (by decide)⟩

end Routine
