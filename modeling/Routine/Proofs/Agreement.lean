import Routine.Proofs.Alike
import Routine.Proofs.Skipping

/-!
# Text is decoded like the value that it is of

A tree can be decoded from a JSON value and from JSON text, and the two decoders go different ways: the members
of a value are looked up in the value, those of a text are met in its order and passed over if nobody asks for
them; a text is cut into tokens on the way, and may not be nested too deep. Still, whatever is decoded from a
value is decoded from its text (`text_is_decoded_like_its_value`).

The induction is on two shapes that are alike, since a value is decoded with as many levels as it is deep, and
text with as many as text may have. `Shape.Decodes` is what is carried: the second shape decodes the value, and
takes its text off any longer text. For members, items and what stands under a tag there is a lemma each. Of the
codecs of parsed SQL it is assumed that each does so by itself (`Sql.Codecs.Agree`).
-/

namespace Routine

open Json (Complaint Cursor Fault Reading Reads Stops Steps)

/-! ## Decoders that succeed -/

theorem map_eq_ok {ε α β : Type} {x : Except ε α} {f : α → β} {b : β} (h : x.map f = .ok b) :
    ∃ a, x = .ok a ∧ f a = b := by
  cases x with
  | error e => cases h
  | ok a => exact ⟨a, rfl, Except.ok.inj h⟩

theorem mapM_eq_ok_iff {ε α β : Type} {f : α → Except ε β} {xs : List α} {ys : List β} :
    xs.mapM f = .ok ys ↔ List.Forall₂ (fun x y => f x = .ok y) xs ys := by
  induction xs generalizing ys with
  | nil => cases ys <;> simp [pure, Except.pure]
  | cons x xs ih =>
    rw [List.mapM_cons]
    cases hx : f x with
    | error e => cases ys <;> simp [bind, Except.bind, hx]
    | ok y =>
      cases hxs : xs.mapM f with
      | error e => cases ys <;> simp [bind, Except.bind, ← ih, hxs, hx]
      | ok zs => cases ys <;> simp [bind, Except.bind, pure, Except.pure, ← ih, hxs, hx]

namespace Fields

variable {α σ : Type} {f : Fields α σ}

theorem ofMembers_eq_ok_iff {set : String → Json → σ → Except Complaint σ} {ms : List (String × Json)} {a : α} :
    f.ofMembers set ms = .ok a ↔
      ∃ state, ms.foldlM (fun state m => set m.1 m.2 state) f.none = .ok state ∧ f.complete state = .ok a := by
  rw [ofMembers]
  cases ms.foldlM (fun state m => set m.1 m.2 state) f.none with
  | error k => simp
  | ok state =>
    cases hcomplete : f.complete state with
    | error name => simp [hcomplete]
    | ok b => simp [hcomplete]

theorem ofArray_eq_ok_iff {title : String} {vs : List Json} {a : α}
    {items : String → Nat → List Json → Except Complaint (α × List Json)} :
    f.ofArray title items vs = .ok a ↔ items (counted title f.count) 0 vs = .ok (a, []) := by
  rw [ofArray]
  rcases items (counted title f.count) 0 vs with k | ⟨b, _ | ⟨w, ws⟩⟩
  · simp
  · simp
  · simp

end Fields

/-! ## Values of 64 bits -/

namespace Json

mutual

/-- Every integer has a place among those of 64 bits. -/
def WordSized : Json → Prop
  | int n => FitsWord n
  | arr items => WordSizedItems items
  | obj members => WordSizedMembers members
  | _ => True

/-- Every integer in the items has a place. -/
def WordSizedItems : List Json → Prop
  | [] => True
  | v :: vs => v.WordSized ∧ WordSizedItems vs

/-- Every integer in the members has a place. -/
def WordSizedMembers : List (String × Json) → Prop
  | [] => True
  | (_, v) :: ms => v.WordSized ∧ WordSizedMembers ms

end

/-- Neither a floating point number, nor a list or an object. -/
def IsFlat : Json → Prop
  | float _ => False
  | arr _ => False
  | obj _ => False
  | _ => True

theorem IsFlat.isScalar {v : Json} (h : v.IsFlat) (hsized : v.WordSized) : v.IsScalar := by
  cases v with
  | int n => exact hsized
  | null => trivial
  | bool b => trivial
  | str s => trivial
  | float bits => cases h
  | arr items => cases h
  | obj members => cases h

end Json

/-! ## Both decoders -/

/-- The value is decoded, and its text is where there is room. -/
structure Shape.Decodes {α : Type} (s : Shape α) (v : Json) (a : α) : Prop where
  value : s.ofJson v = .ok a
  text : v.WordSized → ∀ room, v.depth < room → Reads (s.ofText room) v a

/-- A member is decoded into its place, which takes the first state to the second. -/
structure Fields.DecodesMember {α σ : Type} (f : Fields α σ) (name : String) (v : Json) (state state' : σ) :
    Prop where
  value : f.setMember name v state = .ok state'
  text : v.WordSized → ∀ room, v.depth < room → ∀ rest i, Stops rest →
    ∃ j, f.setText room name state ⟨':' :: v.compactChars ++ rest, i⟩ = .ok (state', ⟨rest, j⟩)

/-- All items are decoded as members. -/
structure Fields.DecodesItems {α σ : Type} (f : Fields α σ) (vs : List Json) (a : α) : Prop where
  value : ∀ expected i, f.ofItems expected i vs = .ok (a, [])
  text : Json.WordSizedItems vs → f.ReadsItems vs a

/-- The reader takes the text of what stands under a tag, or nothing. -/
def ReadsUnder {α : Type} (read : Option Nat → Cursor → Reading α) (a : α) : Option Json → Prop
  | none => ∀ c, read none c = .ok (a, c)
  | some v => v.WordSized → ∀ room, v.depth < room → Reads (read (some room)) v a

/-- What stands under the tag is decoded. -/
structure Variants.DecodesTag {α : Type} (variants : Variants α) (name : String) (under : Option Json) (a : α) :
    Prop where
  value : ∃ payload, variants.ofTag name = some payload ∧ payload under = .ok a
  text : ∃ read, variants.textOfTag name = some read ∧ ReadsUnder read a under

namespace Shape

variable {α : Type}

theorem Decodes.scalar {s : Shape α} {expected : String} {decode : Json → Except Complaint α} {v : Json}
    {a : α} (hvalue : s.ofJson v = decode v) (htext : ∀ room, s.ofText room = readScalar expected decode)
    (hflat : v.IsFlat) (ha : decode v = .ok a) : s.Decodes v a := by
  refine ⟨by rw [hvalue, ha], ?_⟩
  intro hsized room _
  rw [htext]
  exact reads_scalar (hflat.isScalar hsized) ha

theorem Decodes.either {title : String} {read : Json → Option α} {write : α → Json} {v : Json} {a : α}
    (htells : TellsScalars read) (h : (either title read write).ofJson v = .ok a) :
    (either title read write).Decodes v a := by
  refine ⟨h, ?_⟩
  rw [ofJson] at h
  cases hread : read v with
  | none =>
    rw [hread] at h
    cases h
  | some b =>
    rw [hread] at h
    obtain rfl := Except.ok.inj h
    intro _ room _
    exact reads_either (htells v b hread) hread

theorem Decodes.convert {β : Type} {read : α → Except String β} {back : β → α} {item item' : Shape α}
    {v : Json} {b : β} (h : (Shape.convert read back item).ofJson v = .ok b)
    (hitem : ∀ a, item.ofJson v = .ok a → item'.Decodes v a) :
    (Shape.convert read back item').Decodes v b := by
  rw [ofJson] at h
  cases ha : item.ofJson v with
  | error k =>
    rw [ha] at h
    cases h
  | ok a =>
    simp only [ha] at h
    cases hb : read a with
    | error message =>
      rw [hb] at h
      cases h
    | ok b' =>
      rw [hb] at h
      obtain rfl := Except.ok.inj h
      have hdecodes := hitem a ha
      refine ⟨by simp only [ofJson, hdecodes.value, hb], ?_⟩
      intro hsized room hroom
      exact reads_convert (hdecodes.text hsized room hroom) hb

theorem Decodes.option {item item' : Shape α} {v : Json} {value : Option α}
    (h : (Shape.option item).ofJson v = .ok value)
    (hitem : ∀ a, item.ofJson v = .ok a → item'.Decodes v a) : (Shape.option item').Decodes v value := by
  by_cases hnull : v = .null
  · subst hnull
    obtain rfl := Except.ok.inj h
    exact ⟨rfl, fun _ _ _ => reads_none⟩
  · have hmap : ∀ s : Shape α, (Shape.option s).ofJson v = (s.ofJson v).map some := by
      intro s
      cases v with
      | null => exact absurd rfl hnull
      | _ => rfl
    rw [hmap] at h
    obtain ⟨a, ha, rfl⟩ := map_eq_ok h
    have hdecodes := hitem a ha
    refine ⟨by rw [hmap, hdecodes.value]; rfl, ?_⟩
    intro hsized room hroom
    exact reads_some (hdecodes.text hsized room hroom) hnull

theorem decodes_items {item item' : Shape α} {bound : Nat}
    (hitem : ∀ v a, v.depth < bound → item.ofJson v = .ok a → item'.Decodes v a) {vs : List Json} {as : List α}
    (h : List.Forall₂ (fun v a => item.ofJson v = .ok a) vs as) (hdepth : Json.depthItems vs < bound) :
    List.Forall₂ item'.Decodes vs as := by
  induction h with
  | nil => exact .nil
  | cons hv _ ih =>
    rw [Json.depthItems, Nat.max_lt] at hdepth
    exact .cons (hitem _ _ hdepth.1 hv) (ih hdepth.2)

theorem reads_items {item : Shape α} {vs : List Json} {as : List α} (h : List.Forall₂ item.Decodes vs as)
    (hsized : Json.WordSizedItems vs) {room : Nat} (hroom : Json.depthItems vs < room) :
    List.Forall₂ (Reads (item.ofText room)) vs as := by
  induction h with
  | nil => exact .nil
  | cons hv _ ih =>
    rw [Json.depthItems, Nat.max_lt] at hroom
    rw [Json.WordSizedItems] at hsized
    exact .cons (hv.text hsized.1 room hroom.1) (ih hsized.2 hroom.2)

theorem Decodes.list {item item' : Shape α} {v : Json} {as : List α} (h : (Shape.list item).ofJson v = .ok as)
    (hitem : ∀ w a, w.depth < v.depth → item.ofJson w = .ok a → item'.Decodes w a) :
    (Shape.list item').Decodes v as := by
  cases v with
  | arr vs =>
    rw [ofJson, mapM_eq_ok_iff] at h
    have hall := decodes_items hitem h (by rw [Json.depth]; omega)
    refine ⟨?_, ?_⟩
    · rw [ofJson, mapM_eq_ok_iff]
      exact hall.imp fun _ _ hv => hv.value
    · intro hsized room hroom
      rw [Json.WordSized] at hsized
      exact reads_list (fun inner hinner => reads_items hall hsized hinner) hroom
  | _ => cases h

theorem depth_tagged (tag : String) (v : Json) : (Json.obj [(tag, v)]).depth = v.depth + 1 := by
  rw [Json.depth, Json.depthMembers, Json.depthMembers, Nat.max_zero]

theorem wordSized_tagged {tag : String} {v : Json} (h : (Json.obj [(tag, v)]).WordSized) : v.WordSized := by
  rw [Json.WordSized, Json.WordSizedMembers] at h
  exact h.1

/-- What a tag is on is decoded from an object with this one member. -/
theorem ofJson_tagged_eq_ok {tag : String} {item : Shape α} {v : Json} {a : α}
    (h : (Shape.tagged tag item).ofJson v = .ok a) :
    ∃ w, v = .obj [(tag, w)] ∧ item.ofJson w = .ok a := by
  match v with
  | .obj [] => cases h
  | .obj ((name, w) :: more) =>
    simp only [ofJson] at h
    split at h
    · next hname =>
      subst hname
      split at h
      · cases h
      · next b hb =>
        cases more with
        | nil =>
          obtain rfl := Except.ok.inj h
          exact ⟨w, rfl, hb⟩
        | cons m ms => cases h
    · cases h
  | .null => cases h
  | .bool _ => cases h
  | .int _ => cases h
  | .float _ => cases h
  | .str _ => cases h
  | .arr _ => cases h

theorem Decodes.tagged {tag : String} {item item' : Shape α} {v : Json} {a : α}
    (h : (Shape.tagged tag item).ofJson v = .ok a)
    (hitem : ∀ w, w.depth < v.depth → item.ofJson w = .ok a → item'.Decodes w a) :
    (Shape.tagged tag item').Decodes v a := by
  obtain ⟨w, rfl, ha⟩ := ofJson_tagged_eq_ok h
  have hdecodes := hitem w (by rw [depth_tagged]; omega) ha
  refine ⟨by simp [ofJson, hdecodes.value], ?_⟩
  intro hsized room hroom
  exact reads_tagged (hdecodes.text (wordSized_tagged hsized)) hroom

end Shape

/-! ## Records -/

namespace Fields

variable {α σ : Type} {f f' : Fields α σ}

/-- Members are decoded one after the other, in whatever order they come. -/
theorem foldlM_decodes {bound : Nat}
    (hmember : ∀ name v s s', v.depth < bound → f.setMember name v s = .ok s' → f'.DecodesMember name v s s')
    {ms : List (String × Json)} {s s' : σ} (hdepth : Json.depthMembers ms < bound)
    (h : ms.foldlM (fun state m => f.setMember m.1 m.2 state) s = .ok s') :
    ms.foldlM (fun state m => f'.setMember m.1 m.2 state) s = .ok s' ∧
      (Json.WordSizedMembers ms → ∀ room, Json.depthMembers ms < room → Steps (f'.setText room) ms s s') := by
  induction ms generalizing s with
  | nil =>
    obtain rfl := Except.ok.inj h
    exact ⟨rfl, fun _ _ _ => .nil⟩
  | cons m ms ih =>
    obtain ⟨name, v⟩ := m
    rw [Json.depthMembers, Nat.max_lt] at hdepth
    rw [List.foldlM_cons] at h
    cases hset : f.setMember name v s with
    | error k =>
      rw [hset] at h
      cases h
    | ok next =>
      rw [hset] at h
      have hfirst := hmember name v s next hdepth.1 hset
      obtain ⟨hlater, hsteps⟩ := ih hdepth.2 h
      refine ⟨?_, ?_⟩
      · rw [List.foldlM_cons, hfirst.value]
        exact hlater
      · intro hsized room hroom
        rw [Json.WordSizedMembers] at hsized
        rw [Json.depthMembers, Nat.max_lt] at hroom
        exact .cons (hfirst.text hsized.1 room hroom.1) (hsteps hsized.2 room hroom.2)

/-- A record is decoded from an object, under whatever title. -/
structure DecodesObject (f : Fields α σ) (ms : List (String × Json)) (a : α) : Prop where
  value : f.ofMembers f.setMember ms = .ok a
  text : Json.WordSizedMembers ms → ∀ title room, (Json.obj ms).depth < room →
    Reads (f.read title f.setText f.itemsText room) (.obj ms) a

theorem decodesObject (hnone : f'.none = f.none) (hcomplete : ∀ state, f'.complete state = f.complete state)
    {ms : List (String × Json)} {a : α} (h : f.ofMembers f.setMember ms = .ok a)
    (hmember : ∀ name v s s', v.depth < (Json.obj ms).depth → f.setMember name v s = .ok s' →
      f'.DecodesMember name v s s') : f'.DecodesObject ms a := by
  obtain ⟨state, hstate, ha⟩ := ofMembers_eq_ok_iff.1 h
  obtain ⟨hvalue, hsteps⟩ := foldlM_decodes hmember (by rw [Json.depth]; omega) hstate
  rw [← hnone] at hvalue hsteps
  refine ⟨ofMembers_eq_ok_iff.2 ⟨state, hvalue, by rw [hcomplete, ha]⟩, ?_⟩
  intro hsized title room hroom
  exact reads_read (fun inner hinner => hsteps hsized inner hinner) (by rw [hcomplete, ha]) hroom

/-- A record is read from an array when its members are. -/
theorem reads_read_arr {title : String} {vs : List Json} {a : α} {room : Nat} (h : f.ReadsItems vs a)
    (hroom : (Json.arr vs).depth < room) : Reads (f.read title f.setText f.itemsText room) (.arr vs) a := by
  refine ⟨rfl, ?_⟩
  intro rest i _
  obtain ⟨j, hj⟩ := h.readList_arr (counted title f.count) hroom rest i
  obtain ⟨xs, hxs⟩ := Json.arr_head vs
  refine ⟨j, ?_⟩
  rw [hxs, List.cons_append] at hj ⊢
  rw [read, Cursor.skipBlanks_cons (by decide)]
  exact hj

theorem DecodesItems.ofArray {vs : List Json} {a : α} (h : f.DecodesItems vs a) (title : String) :
    f.ofArray title f.ofItems vs = .ok a := ofArray_eq_ok_iff.2 (h.value _ 0)

end Fields

theorem Shape.Decodes.record {α σ : Type} {title : String} {f f' : Fields α σ} {v : Json} {a : α}
    (h : (Shape.record title f).ofJson v = .ok a)
    (hobject : ∀ ms, v = .obj ms → f.ofMembers f.setMember ms = .ok a → f'.DecodesObject ms a)
    (harray : ∀ vs, v = .arr vs → f.ofItems (Fields.counted title f.count) 0 vs = .ok (a, []) →
      f'.DecodesItems vs a) : (Shape.record title f').Decodes v a := by
  cases v with
  | obj ms =>
    have hdecodes := hobject ms rfl h
    exact ⟨hdecodes.value, fun hsized room hroom => hdecodes.text hsized title room hroom⟩
  | arr vs =>
    have hdecodes := harray vs rfl (Fields.ofArray_eq_ok_iff.1 h)
    exact ⟨hdecodes.ofArray title, fun hsized room hroom => Fields.reads_read_arr (hdecodes.text hsized) hroom⟩
  | _ => cases h

/-! ## Families -/

/-- A tag with what stands under it, or a bare tag. -/
def Json.underTag (name : String) : Option Json → Json
  | none => .str name
  | some v => .obj [(name, v)]

theorem Shape.ofJson_choice_eq_ok {α : Type} {variants : Variants α} {v : Json} {a : α}
    (h : (Shape.choice variants).ofJson v = .ok a) :
    ∃ name under payload, v = Json.underTag name under ∧ variants.ofTag name = some payload ∧
      payload under = .ok a := by
  match v with
  | .obj [(name, w)] =>
    simp only [ofJson] at h
    split at h
    · next payload hpayload => exact ⟨name, some w, payload, rfl, hpayload, h⟩
    · cases h
  | .str name =>
    simp only [ofJson] at h
    split at h
    · next payload hpayload => exact ⟨name, none, payload, rfl, hpayload, h⟩
    · cases h
  | .obj [] => cases h
  | .obj (_ :: _ :: _) => cases h
  | .null => cases h
  | .bool _ => cases h
  | .int _ => cases h
  | .float _ => cases h
  | .arr _ => cases h

theorem Shape.Decodes.choice {α : Type} {variants : Variants α} {name : String} {under : Option Json} {a : α}
    (h : variants.DecodesTag name under a) :
    (Shape.choice variants).Decodes (Json.underTag name under) a := by
  obtain ⟨⟨payload, hpayload, ha⟩, read, hread, htext⟩ := h
  cases under with
  | none =>
    refine ⟨by simp only [Json.underTag, ofJson, hpayload, ha], ?_⟩
    intro _ room hroom
    exact reads_readChoice hread (fun inner => .bare htext) hroom
  | some w =>
    refine ⟨by simp only [Json.underTag, ofJson, hpayload, ha], ?_⟩
    intro hsized room hroom
    exact reads_readChoice hread (fun inner => .under (htext (wordSized_tagged hsized) inner)) hroom

namespace Variants

variable {α β : Type}

theorem DecodesTag.later {variants rest : Variants α} {name : String} {under : Option Json} {a : α}
    (h : rest.DecodesTag name under a) (hvalue : variants.ofTag name = rest.ofTag name)
    (htext : variants.textOfTag name = rest.textOfTag name) : variants.DecodesTag name under a := by
  refine ⟨?_, ?_⟩
  · rw [hvalue]
    exact h.value
  · rw [htext]
    exact h.text

theorem DecodesTag.bare {tag : String} {value a : α} {isThis : α → Bool} {rest : Variants α}
    {under : Option Json} {payload : Option Json → Except Complaint α}
    (h : (Variants.bare tag value isThis rest).ofTag tag = some payload) (ha : payload under = .ok a)
    (rest' : Variants α) : (Variants.bare tag value isThis rest').DecodesTag tag under a := by
  rw [ofTag, if_pos rfl] at h
  obtain rfl := Option.some.inj h
  refine ⟨⟨_, by rw [ofTag, if_pos rfl], ha⟩, _, by rw [textOfTag, if_pos rfl], ?_⟩
  match under with
  | none =>
    obtain rfl := Except.ok.inj ha
    intro c
    rfl
  | some .null =>
    obtain rfl := Except.ok.inj ha
    intro _ room _
    exact ⟨rfl, fun rest i _ => Json.literal_append 'n' "ull" value rest i⟩
  | some (.bool _) => cases ha
  | some (.int _) => cases ha
  | some (.float _) => cases ha
  | some (.str _) => cases ha
  | some (.arr _) => cases ha
  | some (.obj _) => cases ha

theorem DecodesTag.holding {tag : String} {item item' : Shape β} {inject : β → α} {project : α → Option β}
    {rest : Variants α} {under : Option Json} {payload : Option Json → Except Complaint α} {a : α}
    (h : (Variants.holding tag item inject project rest).ofTag tag = some payload) (ha : payload under = .ok a)
    (hitem : ∀ w b, under = some w → item.ofJson w = .ok b → item'.Decodes w b) (rest' : Variants α) :
    (Variants.holding tag item' inject project rest').DecodesTag tag under a := by
  rw [ofTag, if_pos rfl] at h
  obtain rfl := Option.some.inj h
  cases under with
  | none => cases ha
  | some w =>
    obtain ⟨b, hb, rfl⟩ := map_eq_ok ha
    have hdecodes := hitem w b rfl hb
    refine ⟨⟨_, by rw [ofTag, if_pos rfl], ?_⟩, _, by rw [textOfTag, if_pos rfl], ?_⟩
    · simp only [hdecodes.value]
      rfl
    · intro hsized room hroom
      exact (hdecodes.text hsized room hroom).map inject

theorem DecodesTag.named {σ : Type} {tag title : String} {f f' : Fields β σ} {inject : β → α}
    {project : α → Option β} {rest : Variants α} {under : Option Json}
    {payload : Option Json → Except Complaint α} {a : α}
    (h : (Variants.named tag title f inject project rest).ofTag tag = some payload) (ha : payload under = .ok a)
    (hobject : ∀ ms b, under = some (.obj ms) → f.ofMembers f.setMember ms = .ok b → f'.DecodesObject ms b)
    (rest' : Variants α) : (Variants.named tag title f' inject project rest').DecodesTag tag under a := by
  rw [ofTag, if_pos rfl] at h
  obtain rfl := Option.some.inj h
  match under with
  | some (.obj ms) =>
    obtain ⟨b, hb, rfl⟩ := map_eq_ok ha
    have hdecodes := hobject ms b rfl hb
    refine ⟨⟨_, by rw [ofTag, if_pos rfl], ?_⟩, _, by rw [textOfTag, if_pos rfl], ?_⟩
    · simp only [hdecodes.value]
      rfl
    · intro hsized room hroom
      exact (hdecodes.text hsized title room hroom).map inject
  | none => cases ha
  | some .null => cases ha
  | some (.bool _) => cases ha
  | some (.int _) => cases ha
  | some (.float _) => cases ha
  | some (.str _) => cases ha
  | some (.arr _) => cases ha

theorem DecodesTag.positional {σ : Type} {tag title : String} {f f' : Fields β σ} {inject : β → α}
    {project : α → Option β} {rest : Variants α} {under : Option Json}
    {payload : Option Json → Except Complaint α} {a : α}
    (h : (Variants.positional tag title f inject project rest).ofTag tag = some payload)
    (ha : payload under = .ok a)
    (harray : ∀ vs b, under = some (.arr vs) →
      f.ofItems (Fields.counted title f.count) 0 vs = .ok (b, []) → f'.DecodesItems vs b)
    (rest' : Variants α) :
    (Variants.positional tag title f' inject project rest').DecodesTag tag under a := by
  rw [ofTag, if_pos rfl] at h
  obtain rfl := Option.some.inj h
  match under with
  | some (.arr (v :: vs)) =>
    obtain ⟨b, hb, rfl⟩ := map_eq_ok ha
    have hdecodes := harray (v :: vs) b rfl (Fields.ofArray_eq_ok_iff.1 hb)
    refine ⟨⟨_, by rw [ofTag, if_pos rfl], ?_⟩, _, by rw [textOfTag, if_pos rfl], ?_⟩
    · simp only [hdecodes.ofArray title]
      rfl
    · intro hsized room hroom
      exact (Fields.reads_readArray (hdecodes.text hsized) hroom).map inject
  | none => cases ha
  | some (.arr []) => cases ha
  | some .null => cases ha
  | some (.bool _) => cases ha
  | some (.int _) => cases ha
  | some (.float _) => cases ha
  | some (.str _) => cases ha
  | some (.obj _) => cases ha

end Variants

/-! ## Shapes that are alike -/

theorem Fields.complete_cons_congr {α β σ : Type} {name : String} {item item' : Shape α}
    {whenAbsent whenShort : Option α} {isHidden : α → Bool} {rest rest' : Fields β σ}
    (h : ∀ xs, rest'.complete xs = rest.complete xs) (state : Option α × σ) :
    (cons name item' whenAbsent whenShort isHidden rest').complete state =
      (cons name item whenAbsent whenShort isHidden rest).complete state := by
  obtain ⟨x, xs⟩ := state
  rw [complete, complete, h xs]

theorem Fields.Alike.complete_eq {given : (α : Type) → Shape α → Shape α → Prop} :
    {k : Nat} → {α σ : Type} → {f f' : Fields α σ} → Fields.Alike given k f f' →
    ∀ state, f'.complete state = f.complete state
  | _, _, _, _, _, .nil => fun _ => rfl
  | _, _, _, _, _, .cons _ hrest => Fields.complete_cons_congr hrest.complete_eq

/-- What the first shape decodes from a value, the second decodes, from the value and from its text. -/
def Shape.DecodesAlso (α : Type) (s s' : Shape α) : Prop := ∀ v a, s.ofJson v = .ok a → s'.Decodes v a

mutual

/-- **What the first of two shapes decodes from a value, the second decodes**, from the value and from its
text. -/
theorem Shape.Alike.decodes : {k : Nat} → {α : Type} → {s s' : Shape α} → Shape.Alike Shape.DecodesAlso k s s' →
    {v : Json} → {a : α} → v.depth < k → s.ofJson v = .ok a → s'.Decodes v a
  | _, _, _, _, .deep, _, _, hdepth, _ => absurd hdepth (Nat.not_lt_zero _)
  | _, _, _, _, .weaken hjk h, _, _, hdepth, hok => h.decodes (Nat.lt_of_lt_of_le hdepth hjk) hok
  | _, _, _, _, .given h, v, a, _, hok => h v a hok
  | _, _, _, _, .exhausted, _, _, _, hok => by cases hok
  | _, _, _, _, .int32, v, _, _, hok => .scalar rfl (fun _ => rfl) (by cases v <;> trivial) hok
  | _, _, _, _, .int64, v, _, _, hok => .scalar rfl (fun _ => rfl) (by cases v <;> trivial) hok
  | _, _, _, _, .natural, v, _, _, hok => .scalar rfl (fun _ => rfl) (by cases v <;> trivial) hok
  | _, _, _, _, .bool, v, _, _, hok => .scalar rfl (fun _ => rfl) (by cases v <;> trivial) hok
  | _, _, _, _, .string, v, _, _, hok => .scalar rfl (fun _ => rfl) (by cases v <;> trivial) hok
  | _, _, _, _, .character, v, _, _, hok => .scalar rfl (fun _ => rfl) (by cases v <;> trivial) hok
  | _, _, _, _, .option h, _, _, hdepth, hok => .option hok fun _ ha => h.decodes hdepth ha
  | _, _, _, _, .list h, _, _, hdepth, hok =>
    .list hok fun _ _ hw ha => h.decodes (Nat.lt_trans hw hdepth) ha
  | _, _, _, _, .record h, v, _, hdepth, hok => by
    refine .record hok ?_ ?_
    · rintro ms rfl hms
      exact Fields.decodesObject h.none_eq h.complete_eq hms
        fun name v s s' hv hset => h.decodesMember (Nat.lt_trans hv hdepth) hset
    · rintro vs rfl hvs
      rw [Json.depth] at hdepth
      exact h.decodesItems (Nat.lt_of_succ_lt hdepth) hvs
  | _, _, _, _, .tagged h, _, _, hdepth, hok =>
    .tagged hok fun _ hw ha => h.decodes (by omega) ha
  | _, _, _, _, .choice h, v, _, hdepth, hok => by
    obtain ⟨name, under, payload, rfl, hpayload, ha⟩ := Shape.ofJson_choice_eq_ok hok
    refine .choice (h.decodesTag ?_ hpayload ha)
    rintro w rfl
    rw [Json.underTag, Shape.depth_tagged] at hdepth
    exact Nat.lt_of_succ_lt_succ hdepth
  | _, _, _, _, .convert _ h, _, _, hdepth, hok => .convert hok fun _ ha => h.decodes hdepth ha
  | _, _, _, _, .either htells, _, _, _, hok => .either htells hok
  | _, _, _, _, .word htells, _, _, _, hok => .convert hok fun _ ha => .either htells ha

theorem Fields.Alike.decodesMember : {k : Nat} → {α σ : Type} → {f f' : Fields α σ} →
    Fields.Alike Shape.DecodesAlso k f f' → {name : String} → {v : Json} → {state state' : σ} → v.depth < k →
    f.setMember name v state = .ok state' → f'.DecodesMember name v state state'
  | _, _, _, _, _, .nil, name, v, state, state', _, hset => by
    -- Nobody asks for the member, so it is passed over, whatever it holds.
    obtain rfl := Except.ok.inj hset
    refine ⟨rfl, ?_⟩
    intro _ room _ rest i hrest
    obtain ⟨j, hj⟩ := Cursor.skipValue_compactChars v hrest (i + 1)
    refine ⟨j, ?_⟩
    rw [Fields.setText, List.cons_append, Cursor.colon_cons]
    simp only [hj]
  | _, _, _, _, _, @Fields.Alike.cons _ _ _ _ _ own _ _ _ _ _ _ _ hitem hrest, name, v, (x, xs), state',
      hdepth, hset => by
    rw [Fields.setMember] at hset
    by_cases hname : name = own
    · rw [if_pos hname] at hset
      cases x with
      | some b => cases hset
      | none =>
        obtain ⟨a, ha, rfl⟩ := map_eq_ok hset
        have hdecodes := hitem.decodes hdepth ha
        refine ⟨?_, ?_⟩
        · rw [Fields.setMember, if_pos hname, if_neg (by simp), hdecodes.value]
          rfl
        · intro hsized room hroom rest i hstops
          obtain ⟨j, hj⟩ := (hdecodes.text hsized room hroom).takes rest (i + 1) hstops
          refine ⟨j, ?_⟩
          rw [Fields.setText, if_pos hname, if_neg (by simp), List.cons_append, Cursor.colon_cons]
          simp only [hj]
          rfl
    · rw [if_neg hname] at hset
      obtain ⟨ys, hys, rfl⟩ := map_eq_ok hset
      have hdecodes := hrest.decodesMember hdepth hys
      refine ⟨?_, ?_⟩
      · rw [Fields.setMember, if_neg hname, hdecodes.value]
        rfl
      · intro hsized room hroom rest i hstops
        obtain ⟨j, hj⟩ := hdecodes.text hsized room hroom rest i hstops
        refine ⟨j, ?_⟩
        rw [Fields.setText, if_neg hname, hj]
        rfl

theorem Fields.Alike.decodesItems : {k : Nat} → {α σ : Type} → {f f' : Fields α σ} →
    Fields.Alike Shape.DecodesAlso k f f' → {expected : String} → {n : Nat} → {vs : List Json} → {a : α} →
    Json.depthItems vs < k → f.ofItems expected n vs = .ok (a, []) → f'.DecodesItems vs a
  | _, _, _, _, _, .nil, _, _, vs, (), _, hok => by
    obtain rfl := (Prod.mk.inj (Except.ok.inj hok)).2
    refine ⟨fun _ _ => rfl, ?_⟩
    intro _ room _ expected n first rest i
    refine ⟨i, ?_⟩
    rw [Fields.itemsText, Json.itemsText_nil, List.nil_append]
  | _, _, _, _, _, @Fields.Alike.cons _ _ _ _ _ _ item item' _ whenShort _ rest rest' hitem hrest, _, n, [],
      a, hdepth, hok => by
    -- The array is too short for the member, which then has a value without it.
    cases whenShort with
    | none => cases hok
    | some b =>
      obtain ⟨⟨c, ws⟩, hc, heq⟩ := map_eq_ok hok
      obtain ⟨rfl, rfl⟩ := Prod.mk.inj heq
      have hdecodes := hrest.decodesItems hdepth hc
      refine ⟨?_, ?_⟩
      · intro expected i
        simp only [Fields.ofItems, hdecodes.value expected (i + 1)]
        rfl
      · intro hsized room hroom expected n first text i
        obtain ⟨j, hj⟩ := hdecodes.text hsized room hroom expected (n + 1) first text i
        refine ⟨j, ?_⟩
        rw [Json.itemsText_nil, List.nil_append] at hj ⊢
        rw [Fields.itemsText, Cursor.nextItem_close]
        simp only [hj]
        rfl
  | _, _, _, _, _, @Fields.Alike.cons _ _ _ _ _ _ item item' _ _ _ rest rest' hitem hrest, _, n, v :: vs,
      a, hdepth, hok => by
    rw [Json.depthItems, Nat.max_lt] at hdepth
    rw [Fields.ofItems] at hok
    cases hv : item.ofJson v with
    | error k =>
      rw [hv] at hok
      cases hok
    | ok b =>
      simp only [hv] at hok
      obtain ⟨⟨c, ws⟩, hc, heq⟩ := map_eq_ok hok
      obtain ⟨rfl, rfl⟩ := Prod.mk.inj heq
      have hfirst := hitem.decodes hdepth.1 hv
      have hlater := hrest.decodesItems hdepth.2 hc
      refine ⟨?_, ?_⟩
      · intro expected i
        simp only [Fields.ofItems, hfirst.value, hlater.value expected (i + 1)]
        rfl
      · intro hsized room hroom expected n first text i
        rw [Json.WordSizedItems] at hsized
        rw [Json.depthItems, Nat.max_lt] at hroom
        have hreads := hfirst.text hsized.1 room hroom.1
        obtain ⟨k, hnext, -⟩ := Cursor.nextItem_itemsText first hreads.notFloat vs (']' :: text) i
        obtain ⟨l, hl⟩ := hreads.takes _ k (Json.stops_itemsTail vs text)
        obtain ⟨j, hj⟩ := hlater.text hsized.2 room hroom.2 expected (n + 1) false text l
        refine ⟨j, ?_⟩
        rw [Fields.itemsText, hnext]
        simp only [hl]
        exact congrArg (Json.mapReading (b, ·)) hj

theorem Variants.Alike.decodesTag : {k : Nat} → {α : Type} → {variants variants' : Variants α} →
    Variants.Alike Shape.DecodesAlso k variants variants' → {name : String} → {under : Option Json} →
    {payload : Option Json → Except Complaint α} → {a : α} → (∀ w, under = some w → w.depth < k) →
    variants.ofTag name = some payload → payload under = .ok a → variants'.DecodesTag name under a
  | _, _, _, _, .nil, _, _, _, _, _, hpayload, _ => by cases hpayload
  | _, _, _, _, @Variants.Alike.bare _ _ _ tag _ _ _ rest' hrest, name, under, payload, a, hdepth,
      hpayload, ha => by
    by_cases hname : name = tag
    · subst hname
      exact .bare hpayload ha rest'
    · rw [Variants.ofTag, if_neg hname] at hpayload
      exact (hrest.decodesTag hdepth hpayload ha).later (by rw [Variants.ofTag, if_neg hname])
        (by rw [Variants.textOfTag, if_neg hname])
  | _, _, _, _, @Variants.Alike.holding _ _ _ _ tag _ _ _ _ _ rest' hitem hrest, name, under, payload, a,
      hdepth, hpayload, ha => by
    by_cases hname : name = tag
    · subst hname
      exact .holding hpayload ha (fun w b hw hb => hitem.decodes (hdepth w hw) hb) rest'
    · rw [Variants.ofTag, if_neg hname] at hpayload
      exact (hrest.decodesTag hdepth hpayload ha).later (by rw [Variants.ofTag, if_neg hname])
        (by rw [Variants.textOfTag, if_neg hname])
  | _, _, _, _, @Variants.Alike.named _ _ _ _ _ tag _ _ _ _ _ _ rest' hf hrest, name, under, payload, a,
      hdepth, hpayload, ha => by
    by_cases hname : name = tag
    · subst hname
      refine .named hpayload ha (fun ms b hms hb => ?_) rest'
      exact Fields.decodesObject hf.none_eq hf.complete_eq hb
        fun name v s s' hv hset => hf.decodesMember (Nat.lt_trans hv (hdepth _ hms)) hset
    · rw [Variants.ofTag, if_neg hname] at hpayload
      exact (hrest.decodesTag hdepth hpayload ha).later (by rw [Variants.ofTag, if_neg hname])
        (by rw [Variants.textOfTag, if_neg hname])
  | _, _, _, _, @Variants.Alike.positional _ _ _ _ _ tag _ _ _ _ _ _ rest' _ hf hrest, name, under, payload, a,
      hdepth, hpayload, ha => by
    by_cases hname : name = tag
    · subst hname
      refine .positional hpayload ha (fun vs b hvs hb => ?_) rest'
      have hall := hdepth _ hvs
      rw [Json.depth] at hall
      exact hf.decodesItems (Nat.lt_of_succ_lt hall) hb
    · rw [Variants.ofTag, if_neg hname] at hpayload
      exact (hrest.decodesTag hdepth hpayload ha).later (by rw [Variants.ofTag, if_neg hname])
        (by rw [Variants.textOfTag, if_neg hname])

end

/-! ## Codecs -/

/-- What the codec decodes from a value, it also reads from the text of the value, whatever comes after it. -/
def Codec.Agrees {α : Type} (c : Codec α) : Prop :=
  ∀ v a, c.ofJson v = .ok a → v.WordSized → ∀ room, v.depth < room → Reads (c.ofText room) v a

theorem Codec.Agrees.decodesAlso {α : Type} {c : Codec α} (h : c.Agrees) :
    Shape.DecodesAlso α (.codec c) (.codec c) :=
  fun v a hok => ⟨hok, h v a hok⟩

namespace Sql

/-- The codecs decode text like the values that it is of. -/
structure Codecs.Agree (sql : Codecs) : Prop where
  statement : sql.statement.Agrees
  expression : sql.expression.Agrees
  type : sql.type.Agrees

theorem Codecs.Agree.given {sql : Codecs} (h : sql.Agree) : sql.Given Shape.DecodesAlso :=
  ⟨h.statement.decodesAlso, h.expression.decodesAlso, h.type.decodesAlso⟩

/-- The codec of this library agrees: there is room for every level that a value has. -/
theorem Tree.codec_agrees : codec.Agrees := by
  intro v t hok hsized room hroom
  have halike : Shape.Alike Shape.DecodesAlso room (shape (v.depth + 1)) (shape room) :=
    shape_alike (.inr (Nat.le_refl room))
  exact (halike.decodes hroom hok).text hsized room hroom

theorem codecs_agree : codecs.Agree := ⟨Tree.codec_agrees, Tree.codec_agrees, Tree.codec_agrees⟩

end Sql

/-! ## Parse trees -/

/-- A value as it is held: the members of an object are sorted by name, each name once, and integers are of 64
bits. -/
structure Json.IsHeld (v : Json) : Prop where
  sorted : v.canonical = v
  sized : v.WordSized

/-- A tree is decoded from the members in the order of their names, with as many levels as the value is deep. -/
theorem ParseTree.ofJson_eq_ok_iff {sql : Sql.Codecs} {v : Json} {t : ParseTree} :
    ParseTree.ofJson v sql = .ok t ↔ (ParseTree.shape sql v.canonical.depth).ofJson v.canonical = .ok t := by
  rw [ParseTree.ofJson]
  cases (ParseTree.shape sql v.canonical.depth).ofJson v.canonical <;> simp

/-- **Text is decoded like the value that it is of**, if the codecs of parsed SQL agree on both. Whatever tree is
decoded from a value, with its members in the order of their names, with members that nobody asks for, with arrays
for records and with numbers for words, is decoded from the text of the value, if this is not nested deeper than text
may be. -/
theorem text_is_decoded_like_its_value {sql : Sql.Codecs} (hsql : sql.Agree) {v : Json} {t : ParseTree}
    (hheld : v.IsHeld) (hdepth : v.depth < Json.maxRoom) (h : ParseTree.ofJson v sql = .ok t) :
    ParseTree.ofText v.compact sql = .ok t := by
  have hvalue := ParseTree.ofJson_eq_ok_iff.1 h
  rw [hheld.sorted] at hvalue
  -- Text has more levels than a value that is not too deep for it.
  have halike : Shape.Alike Shape.DecodesAlso (v.depth + 1) (ParseTree.shape sql v.depth)
      (ParseTree.textShape sql) :=
    ParseTree.shape_alike hsql.given (.inl (Nat.le_of_lt hdepth))
  have hdecodes := halike.decodes (Nat.lt_succ_self v.depth) hvalue
  rw [ParseTree.ofText, Shape.parse_of_reads (hdecodes.text hheld.sized Json.maxRoom hdepth)]

/-- A routine whose row is given by an array, whose severity is given by a word, and which has a member that
nobody asks for, with a floating point number. What it raises is a parsed expression. -/
def warning : Json :=
  .arr [.obj [("PLpgSQL_function", .obj [
    ("action", .obj [("PLpgSQL_stmt_block", .obj [
      ("body", .arr [.obj [("PLpgSQL_stmt_raise", .obj [
        ("elog_level", .str "warning"), ("lineno", .int 2), ("message", .str "late"), ("options", .null),
        ("params", .arr [.obj [("Hydrated", .obj [("SqlExpr", .obj [
          ("expr", .obj [("Value", .obj [("Number", .arr [.str "1", .bool false])])]),
          ("original", .str "1"), ("parse_mode", .int 2)])])]])])]]),
      ("lineno", .int 1)])]),
    ("cost", .obj [("rows", .float 0x3FE0000000000000)]),
    ("datums", .arr [.obj [("PLpgSQL_row", .arr [.str "pair", .int 1, .arr [.arr [.str "a", .int 0]]])]])])]]

theorem text_is_decoded_like_its_value_warning :
    Sql.codecs.Agree ∧ warning.IsHeld ∧ warning.depth < Json.maxRoom ∧
      ∃ t, ParseTree.ofJson warning Sql.codecs = .ok t ∧ ParseTree.ofText warning.compact Sql.codecs = .ok t := by
  have hsized : warning.WordSized := by
    simp [warning, Json.WordSized, Json.WordSizedItems, Json.WordSizedMembers, Json.FitsWord]
  have hheld : warning.IsHeld := ⟨rfl, hsized⟩
  have hdepth : warning.depth < Json.maxRoom := by decide
  have hok : ParseTree.ofJson warning Sql.codecs = .ok [⟨[.row ⟨"pair", 1, [⟨"a", 0⟩]⟩],
      ⟨1, none, [.simple 2 (.raise ⟨19⟩ none (some "late")
        [.hydrated "1" .expression (.expression (.literal (.number "1" false)))] [])], none⟩⟩] := rfl
  exact ⟨Sql.codecs_agree, hheld, hdepth, _, hok,
    text_is_decoded_like_its_value Sql.codecs_agree hheld hdepth hok⟩

end Routine
