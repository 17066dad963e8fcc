import ClosedWorld.Proofs.Analysis.Accesses
import ClosedWorld.Proofs.Store.Following

/-!
# Values that are tagged on both sides

How an atom is tagged for a field depends on what it looks like from the outside, and atoms that
show instances or arrays of one provenance at the same path look the same.

## Main statements

* `mirrors_retag`: values that are tagged for a field.
-/

namespace ClosedWorld

variable {g : Setting} {s t : Store} {choice : ClazzId} {path : List Wrapping} {item item' : Item}
  {p : Provenance} {v w v' w' : Value}

/-- Atoms that show instances or arrays of one provenance at the same path look the same from the
outside. -/
theorem clazzOf?_eq {atom atom' : Value} (single : atom.isAtom = true)
    (single' : atom'.isAtom = true) (shown : atom.Shows path item) (shown' : atom'.Shows path item')
    (known : s.provenance? item = some p) (known' : t.provenance? item' = some p)
    {clazz clazz' : Option ClazzId} (found : g.clazzOf? s atom = .ok clazz)
    (found' : g.clazzOf? t atom' = .ok clazz') : clazz = clazz' := by
  obtain ⟨rfl, rfl⟩ | ⟨wrapping, rest, content, rfl, rfl, -⟩ := shown.of_isAtom single
  · obtain ⟨-, rfl⟩ | ⟨_, _, _, ⟨⟩, -⟩ := shown'.of_isAtom single'
    cases item with
    | object id =>
      obtain ⟨_, -, rfl⟩ := Option.map_eq_some_iff.1 known
      obtain ⟨id', _, rfl, -, -⟩ := Store.exists_of_created known'
      obtain ⟨key, made, same⟩ := Store.exists_instanceKey known
      obtain ⟨key', made', same'⟩ := Store.exists_instanceKey known'
      obtain ⟨_, asked, ⟨⟩⟩ := exists_of_bind_eq_ok found
      obtain ⟨_, asked', ⟨⟩⟩ := exists_of_bind_eq_ok found'
      cases made.symm.trans asked
      cases made'.symm.trans asked'
      rw [same, same']
    | array id =>
      obtain ⟨id', _, rfl, -, -⟩ := Store.exists_array known known'
      cases found
      cases found'
      rfl
  · obtain ⟨⟨⟩, -⟩ | ⟨_, _, content', ⟨⟩, rfl, -⟩ := shown'.of_isAtom single'
    cases wrapping <;> cases found <;> cases found' <;> rfl

/-- Such atoms are tagged for a choice already, or neither is. -/
theorem exists_tagged_iff {atom atom' : Value} (single : atom.isAtom = true)
    (single' : atom'.isAtom = true) (shown : atom.Shows path item)
    (shown' : atom'.Shows path item') :
    (∃ content tag, atom = .tagged content choice tag) ↔
      ∃ content tag, atom' = .tagged content choice tag := by
  obtain ⟨rfl, rfl⟩ | ⟨wrapping, _, _, rfl, rfl, -⟩ := shown.of_isAtom single
  · obtain ⟨-, rfl⟩ | ⟨_, _, _, ⟨⟩, -⟩ := shown'.of_isAtom single'
    cases item <;> cases item' <;> simp [Item.value]
  · obtain ⟨⟨⟩, -⟩ | ⟨_, _, _, ⟨⟩, rfl, -⟩ := shown'.of_isAtom single'
    cases wrapping <;> simp [Wrapping.around]

/-- What is done to an atom is done to every atom that looks the same. -/
theorem exists_around_of_retagAtom {atom tagged : Value}
    (run : g.retagAtom s choice atom = .ok tagged) :
    ∃ around : Value → Value, (around = id ∨ ∃ tag, around = (Wrapping.tagged choice tag).around) ∧
      tagged = around atom ∧ ∀ {path item item' p atom' tagged'}, atom.isAtom = true →
        atom'.isAtom = true → atom.Shows path item → atom'.Shows path item' →
        s.provenance? item = some p → t.provenance? item' = some p →
        g.retagAtom t choice atom' = .ok tagged' → tagged' = around atom' := by
  obtain ⟨is, rfl⟩ | ⟨fresh, clazz, found, rfl⟩ := Setting.retagAtom_eq_ok run
  · refine ⟨id, .inl rfl, rfl, fun single single' shown shown' _ _ run' => ?_⟩
    obtain ⟨-, rfl⟩ | ⟨fresh', -⟩ := Setting.retagAtom_eq_ok run'
    · rfl
    · obtain ⟨content, tag, is'⟩ := (exists_tagged_iff single single' shown shown').1 is
      exact absurd is' (fresh' content tag)
  · have retagged {atom' tagged' : Value} {path item item' p} (single : atom.isAtom = true)
        (single' : atom'.isAtom = true) (shown : atom.Shows path item)
        (shown' : atom'.Shows path item') (known : s.provenance? item = some p)
        (known' : t.provenance? item' = some p) (run' : g.retagAtom t choice atom' = .ok tagged') :
        tagged' = ((clazz.bind (g.view.choiceTag? choice)).map (.tagged atom' choice)).getD
          atom' := by
      obtain ⟨is', -⟩ | ⟨-, clazz', found', rfl⟩ := Setting.retagAtom_eq_ok run'
      · obtain ⟨content, tag, is⟩ := (exists_tagged_iff single single' shown shown').2 is'
        exact absurd is (fresh content tag)
      · rw [clazzOf?_eq single single' shown shown' known known' found found']
    cases tag : clazz.bind (g.view.choiceTag? choice) with
    | none =>
      rw [tag] at retagged
      exact ⟨id, .inl rfl, rfl, retagged⟩
    | some tag' =>
      rw [tag] at retagged
      exact ⟨_, .inr ⟨tag', rfl⟩, rfl, retagged⟩

/-- Whatever is tagged is in the result. -/
theorem shows_retagAtoms {atoms : List Value} {sofar : Value}
    (run : g.retagAtoms s choice sofar atoms = .ok w) :
    (∀ path item, sofar.Shows path item → w.Shows path item) ∧ ∀ atom ∈ atoms, ∃ tagged,
      g.retagAtom s choice atom = .ok tagged ∧
        ∀ path item, tagged.Shows path item → w.Shows path item := by
  induction atoms generalizing sofar with
  | nil =>
    cases run
    exact ⟨fun _ _ shown => shown, List.forall_mem_nil _⟩
  | cons atom rest ih =>
    unfold Setting.retagAtoms at run
    obtain ⟨tagged, here, run⟩ := exists_of_bind_eq_ok run
    obtain ⟨before, later⟩ := ih run
    exact ⟨fun path item shown => before path item (Value.shows_join.2 (.inl shown)),
      List.forall_mem_cons.2 ⟨⟨tagged, here, fun path item shown =>
        before path item (Value.shows_join.2 (.inr shown))⟩, later⟩⟩

/-- Whatever is in the result was tagged. -/
theorem shown_of_retagAtoms {atoms : List Value} {sofar : Value}
    (run : g.retagAtoms s choice sofar atoms = .ok v) (shown : v.Shows path item) :
    sofar.Shows path item ∨ ∃ atom ∈ atoms, ∃ tagged, g.retagAtom s choice atom = .ok tagged ∧
      tagged.Shows path item := by
  induction atoms generalizing sofar with
  | nil =>
    cases run
    exact .inl shown
  | cons atom rest ih =>
    unfold Setting.retagAtoms at run
    obtain ⟨tagged, here, run⟩ := exists_of_bind_eq_ok run
    obtain joined | ⟨atom', listed, there⟩ := ih run
    · rcases Value.shows_join.1 joined with shown | shown
      · exact .inl shown
      · exact .inr ⟨atom, List.mem_cons_self, tagged, here, shown⟩
    · exact .inr ⟨atom', List.mem_cons_of_mem _ listed, there⟩

/-- What is tagged for a field is mirrored by what is tagged for it in the other store. -/
theorem mirrors_retag {z : Analyzer} (hs : Store.Covered z.view t s) {field : ClazzId}
    (mirrors : Store.Mirrors z.view s t v w) (run : z.retag s field v = .ok v')
    (run' : z.retag t field w = .ok w') : Store.Mirrors z.view s t v' w' where
  made := by
    have made := (AnalysisDiscipline.ofStore (StoreDiscipline.made z.view) true).gives_retag
      hs.made field mirrors.made
    rw [run] at made
    obtain ⟨made⟩ := made
    exact made
  items {path item} shown := by
    unfold Setting.retag at run run'
    split at run
    · cases run
      rename_i untyped
      rw [untyped] at run'
      cases run'
      exact mirrors.items shown
    · rename_i choice typed
      rw [typed] at run'
      dsimp only at run'
      split at run
      · rename_i wrapped
        rw [if_pos wrapped] at run'
        -- What is shown is shown by a tagged atom. It mirrors an atom on the other side, and that
        -- is tagged in the same way, as the two have one clazz.
        obtain nothing | ⟨atom, listed, tagged, tags, shown⟩ := shown_of_retagAtoms run shown
        · exact absurd nothing (Value.not_shows_of_isAbsent rfl)
        obtain ⟨around, kind, rfl, alike⟩ := exists_around_of_retagAtom (t := t) tags
        obtain ⟨rest, inside, outside⟩ : ∃ rest, atom.Shows rest item ∧
            ∀ {v' item'}, v'.Shows rest item' → (around v').Shows path item' := by
          obtain rfl | ⟨tag, rfl⟩ := kind
          · exact ⟨path, shown, fun shown => shown⟩
          · obtain ⟨rest, rfl, inside⟩ := shown.of_around (.tagged choice tag)
            exact ⟨rest, inside, fun shown => shown.around (.tagged choice tag)⟩
        have single : atom.isAtom = true := mirrors.isAtom_of_mem_atoms listed
          (Bool.eq_false_iff.2 fun absent => Value.not_shows_of_isAbsent absent inside)
        obtain ⟨item', p, inside', known, known'⟩ := (mirrors.of_mem_atoms listed).items inside
        obtain ⟨atom', listed', single', inside'⟩ := inside'.exists_atom
        obtain ⟨tagged', tags', more⟩ := (shows_retagAtoms run').2 atom' listed'
        rw [alike single single' inside inside' known known' tags'] at more
        exact ⟨item', p, more _ _ (outside inside'), known, known'⟩
      · rename_i plain
        rw [if_neg plain] at run'
        cases run
        cases run'
        exact mirrors.items shown

end ClosedWorld
