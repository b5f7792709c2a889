import Routine.Proofs.ClearedLines
import Routine.Proofs.Reports

/-!
# Paths are stable

Whoever edits a leaf or reads a report has nothing but the path of the leaf, in words. A path is good for that as long
as no other leaf has it and as long as it stays the path of the leaf.

No two leaves of a tree have one path (`ParseTree.nodup_renders`). Which paths a tree has is settled by its *outline*:
the tree without the contents of its leaves and without lines (`ParseTree.paths_outline`). Everything that is done to
trees as a whole leaves their outlines alone. Hydration, dehydration and edits change the contents of leaves
(`ParseTree.outline_mapSlots`), and clearing changes lines (`ParseTree.outline_clearLines`).
-/

namespace Routine

open Sql (Backend)

namespace ParseTree

/-- The paths of the leaves in words, in the order of a walk over the tree. -/
def paths (t : ParseTree) : List String := t.slots.map fun x => x.1.render

/-- The tree without the contents of its leaves and without the lines of its statements. -/
def outline (t : ParseTree) : ParseTree := t.skeleton.clearLines

variable (t : ParseTree)

theorem paths_mapSlots (m : Mapper) : (t.mapSlots m).paths = t.paths := by
  rw [paths, slots_mapSlots, List.map_map]
  exact List.map_congr_left fun x _ => congrArg Path.render (Mapper.slot_fst m x)

theorem paths_clearLines : t.clearLines.paths = t.paths := by
  rw [paths, slots_clearLines, paths]

/-- The paths of a tree are those of its outline. -/
theorem paths_outline : t.outline.paths = t.paths := by
  rw [outline, paths_clearLines, skeleton, paths_mapSlots]

theorem paths_eq_of_outline_eq {t u : ParseTree} (h : u.outline = t.outline) : u.paths = t.paths := by
  rw [← u.paths_outline, h, t.paths_outline]

theorem outline_mapSlots (m : Mapper) : (t.mapSlots m).outline = t.outline := by
  rw [outline, skeleton_mapSlots, outline]

theorem outline_clearLines : t.clearLines.outline = t.outline := by
  rw [outline, skeleton, mapSlots_clearLines, clearLines_clearLines, outline, skeleton]

theorem outline_of_hydrate {b : Backend} {o : HydrateOptions} {r : Outcome ParseTree} (h : t.hydrate b o = .ok r) :
    r.value.outline = t.outline := by
  rw [hydrate_value h, outline_mapSlots]

end ParseTree

/-- **Paths tell leaves apart, and stay.** The paths of a tree are all different, and trees of one outline have the same
paths in the same order. Hydrating a tree, dehydrating it, clearing its lines and putting anything into its leaves
leave its outline as it is, and so its paths. -/
theorem paths_are_distinct_and_stable (t : ParseTree) :
    t.paths.Nodup ∧
      (∀ u : ParseTree, u.outline = t.outline → u.paths = t.paths) ∧
      (∀ (b : Backend) (o : HydrateOptions) (r : Outcome ParseTree), t.hydrate b o = .ok r →
        r.value.outline = t.outline ∧ r.value.paths = t.paths) ∧
      (∀ b : Backend, (t.dehydrate b).outline = t.outline ∧ (t.dehydrate b).paths = t.paths) ∧
      (t.clearLines.outline = t.outline ∧ t.clearLines.paths = t.paths) ∧
      ∀ m : Mapper, (t.mapSlots m).outline = t.outline ∧ (t.mapSlots m).paths = t.paths := by
  have hpaths : ∀ u : ParseTree, u.outline = t.outline → u.outline = t.outline ∧ u.paths = t.paths :=
    fun u houtline => ⟨houtline, ParseTree.paths_eq_of_outline_eq houtline⟩
  refine ⟨t.nodup_renders, fun u houtline => (hpaths u houtline).2, ?_, ?_, ?_, ?_⟩
  · intro b o r h
    exact hpaths _ (t.outline_of_hydrate h)
  · intro b
    exact hpaths _ (t.outline_mapSlots (dehydrator b))
  · exact hpaths _ t.outline_clearLines
  · intro m
    exact hpaths _ (t.outline_mapSlots m)

theorem paths_are_distinct_and_stable_halfReadable :
    ∃ r : Outcome ParseTree, halfReadable.hydrate .echo {} = .ok r ∧
      r.value.paths = ["functions[0].action.body[0].expr", "functions[1].action.body[0].expr",
        "functions[1].action.body[1].expr"] := by
  obtain ⟨-, -, hhydrated, -⟩ := paths_are_distinct_and_stable halfReadable
  have hok := halfReadable.hydrate_ok (b := .echo) (o := {}) (.inl rfl)
  refine ⟨_, hok, (hhydrated _ _ _ hok).2.trans ?_⟩
  decide +kernel

end Routine
