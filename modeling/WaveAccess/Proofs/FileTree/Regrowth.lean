import WaveAccess.Proofs.FileTree.Creation

/-!
# Creating directories again

Creating the directories of a path a second time changes nothing, whether or not the first time
failed. And if a tree can grow so that a path is a directory in it, then the creation of its
directories does not fail, whatever part of them is there already.
-/

namespace WaveAccess.FileTree

variable {t t' u v : FileTree} {location location' : Location} {name : String}
  {names : List String} {p q : Path} {refusal : Refusal}

/-- Trees of one process with the same nodes are the same. -/
lemma ext_node (hprocess : t'.process = t.process)
    (hnode : ∀ location, t'.node location = t.node location) : t' = t := by
  obtain ⟨node, process, _, _, _⟩ := t
  obtain ⟨node', process', _, _, _⟩ := t'
  obtain rfl : node' = node := funext hnode
  cases hprocess
  rfl

/-! ## The second time -/

/-- Nothing is left that could be created along a chain. -/
def Exhausted (t : FileTree) (chain : List Path) : Prop :=
  (t.makeChain chain).1 = t

/-- If a path is refused, nothing is left as soon as nothing is left above it. -/
lemma exhausted_cons {above : List Path} (hp : p.text ≠ "")
    (hmake : t.makeDirectory p = .error refusal)
    (habove : refusal = .missing → t.Exhausted above) : t.Exhausted (p :: above) := by
  unfold Exhausted at habove ⊢
  rcases t.makeChain_cons above hp with ⟨-, hchain⟩ | ⟨hmissing, t', hrest, hchain⟩ |
    ⟨hmissing, t', refusal', hrest, hchain⟩
  · rw [hchain, hmake, fst_settle_error]
  · rw [hmake] at hmissing
    have hsame := habove (Except.error.inj hmissing)
    rw [hrest] at hsame
    dsimp only at hsame
    rw [hchain, hsame, hmake, fst_settle_error]
  · rw [hmake] at hmissing
    have hsame := habove (Except.error.inj hmissing)
    rw [hrest] at hsame
    rw [hchain]
    exact hsame

/-- Where there is a directory, none is created along its path. -/
lemma makeChain_of_isDirectory {above : List Path} (h : t.isDirectory p = true) :
    t.makeChain (p :: above) = (t, none) := by
  by_cases hp : p.text = ""
  · exact makeChain_of_text_eq t hp
  have hmake := makeDirectory_of_isDirectory h
  rcases t.makeChain_cons above hp with ⟨-, hchain⟩ | ⟨hmissing, -⟩ | ⟨hmissing, -⟩
  · rw [hchain, hmake, settle_error_of_isDirectory h]
  · rw [hmake] at hmissing
    cases hmissing
  · rw [hmake] at hmissing
    cases hmissing

/-- Nothing is left for the path without text. -/
lemma exhausted_of_text_eq {above : List Path} (hp : p.text = "") : t.Exhausted (p :: above) := by
  rw [Exhausted, makeChain_of_text_eq t hp]

/-- Nothing is left for a path that names a directory. -/
lemma exhausted_of_isDirectory {above : List Path} (h : t.isDirectory p = true) :
    t.Exhausted (p :: above) := by
  rw [Exhausted, makeChain_of_isDirectory h]

/-- A directory is created or refused, and either way nothing is left. -/
lemma exhausted_settle {above : List Path} (hp : p.text ≠ "")
    (habove : t.makeDirectory p = .error .missing → t.Exhausted above) :
    (t.settle p (t.makeDirectory p)).1.Exhausted (p :: above) := by
  cases hmake : t.makeDirectory p with
  | ok t' =>
    have hcreates := t.creates_settle p
    rw [hmake] at hcreates
    exact exhausted_of_isDirectory ((hcreates.isDirectory rfl).resolve_left hp)
  | error refusal =>
    rw [fst_settle_error]
    refine exhausted_cons hp hmake fun hmissing => habove ?_
    rw [hmake, hmissing]

/-- The directories along a path are created the first time, as far as they can be. -/
lemma exhausted_makeChain (t : FileTree) (p : Path) :
    (t.makeChain (p :: p.ancestors)).1.Exhausted (p :: p.ancestors) := by
  by_cases hp : p.text = ""
  · exact exhausted_of_text_eq hp
  induction p using Path.parent_induction with
  | top p hnone =>
    rw [hnone]
    rcases t.makeChain_cons [] hp with ⟨-, hchain⟩ | ⟨-, t', habove, -⟩ |
      ⟨hmissing, t', refusal, habove, hchain⟩
    · rw [hchain]
      exact exhausted_settle hp fun _ => rfl
    · cases habove
    · cases habove
      rw [hchain]
      exact exhausted_cons hp hmissing fun _ => rfl
  | child p q hparent ih =>
    have hq : t.makeChain p.ancestors = t.makeChain (q :: q.ancestors) := by rw [hparent.ancestors]
    have habove : (t.makeChain p.ancestors).1.Exhausted p.ancestors := by
      rw [hparent.ancestors]
      by_cases hempty : q.text = ""
      · exact exhausted_of_text_eq hempty
      · exact ih hempty
    rcases t.makeChain_cons p.ancestors hp with ⟨hne, hchain⟩ |
      ⟨-, t', hrest, hchain⟩ | ⟨-, t', refusal, hrest, hchain⟩
    · rw [hchain]
      exact exhausted_settle hp fun hmissing => absurd hmissing hne
    · rw [hrest] at habove
      rw [hchain]
      exact exhausted_settle hp fun _ => habove
    · rw [hrest] at habove hq
      rw [hchain]
      cases hmake : t'.makeDirectory p with
      | ok t'' =>
        -- the parent, which could not be created, would be a directory
        have hcreates := t.creates_makeChain q
        rw [← hq] at hcreates
        have hnonempty : q.text ≠ "" := by
          intro hempty
          rw [makeChain_of_text_eq t hempty] at hq
          cases hq
        have hfailed := hcreates.fails refusal rfl
        rw [isDirectory_of_makeDirectory_ok hparent hnonempty hmake] at hfailed
        cases hfailed
      | error refusal' => exact exhausted_cons hp hmake fun _ => habove

/-- Creating the directories of a path again changes nothing. -/
lemma fst_makeDirectories_again (t : FileTree) (p : Path) :
    ((t.makeDirectories p).1.makeDirectories p).1 = (t.makeDirectories p).1 := by
  simp only [makeDirectories_eq]
  exact t.exhausted_makeChain p

/-! ## Trees that may grow -/

/-- A walk that fails in a tree fails in the same way in what the tree has grown to, unless a name
was missing. -/
lemma Grows.walk_error (h : Grows u v) (hwalk : names.foldlM u.enter location = .error refusal)
    (hne : refusal ≠ .missing) : names.foldlM v.enter location = .error refusal := by
  induction names generalizing location with
  | nil => cases hwalk
  | cons name names ih =>
    rw [List.foldlM_cons] at hwalk ⊢
    cases hnext : u.enter location name with
    | ok next =>
      rw [hnext] at hwalk
      rw [h.enter_ok hnext]
      exact ih hwalk
    | error refusal' =>
      rw [hnext] at hwalk
      cases hwalk
      have henter : v.enter location name = .error refusal := by
        unfold enter at hnext ⊢
        cases hnode : u.node location with
        | none =>
          rw [hnode] at hnext
          cases hnext
          exact absurd rfl hne
        | some node =>
          rw [hnode] at hnext
          rw [h.node_eq hnode]
          cases node with
          | file content => exact hnext
          | directory =>
            dsimp only at hnext ⊢
            split_ifs at hnext with hdot hup hlong hmissing
            · rw [if_neg hdot, if_neg hup, if_pos hlong]
              exact hnext
            · cases hnext
              exact absurd rfl hne
      rw [henter]
      rfl

/-- What is a directory in the end is one already, or can be created, or lies in something that is
missing. -/
lemma settle_of_grows (h : Grows u v) (hp : v.isDirectory p = true) :
    (u.makeDirectory p = .error .missing ∧ u.place p = .error .missing) ∨
      (u.makeDirectory p ≠ .error .missing ∧ (u.settle p (u.makeDirectory p)).2 = none ∧
        Grows (u.settle p (u.makeDirectory p)).1 v) := by
  obtain ⟨hwalk, hdirectory⟩ := walk_of_isDirectory hp
  have hrefusal := pathRefusal?_of_isDirectory hp
  have hstart : v.start p = u.start p := by rw [start, start, h.process]
  rw [walk, hstart] at hwalk
  rcases u.makeDirectory_cases hrefusal with ⟨location, hfound, hmake⟩ | ⟨-, u', hmake⟩ |
    ⟨refusal, -, hplace, hrefused, hmake⟩
  · -- what was there has stayed what it was
    obtain ⟨hlocation, hsome⟩ := walk_eq_ok hfound
    obtain ⟨node, hnode⟩ := Option.isSome_iff_exists.mp hsome
    rw [hlocation] at hnode
    rw [h.target_eq, h.node_eq hnode] at hdirectory
    cases hdirectory
    rw [← hlocation] at hnode
    rw [hmake, settle_error_of_isDirectory (isDirectory_of_walk hrefusal hfound hnode)]
    exact .inr ⟨by simp, rfl, h⟩
  · rw [hmake, settle_ok]
    refine .inr ⟨by simp, rfl, ?_, ?_⟩
    · rw [h.process, (makeDirectory_ok hmake).1.process]
    · intro location
      rw [node_makeDirectory hmake]
      split
      · next heq =>
        rw [heq, ← h.target_eq]
        exact .inl hdirectory
      · exact h.node location
  · by_cases hmissing : refusal = .missing
    · rw [hmissing] at hplace hmake
      exact .inl ⟨hmake, hplace⟩
    · rw [walk] at hrefused
      rw [h.walk_error hrefused hmissing] at hwalk
      cases hwalk

/-- The place of a path is not missing if the names before the last lead somewhere. -/
lemma place_ne_missing {before : List String} {last : String} (hp : p.text ≠ "")
    (hnames : p.names = before ++ [last])
    (hwalk : before.foldlM t.enter (t.start p) = .ok location) :
    t.place p ≠ .error .missing := by
  have hreverse : p.names.reverse = last :: before.reverse := by simp [hnames]
  rw [place, pathRefusal?, if_neg hp]
  split
  · next hrefused =>
    split_ifs at hrefused <;> cases hrefused <;> simp
  · rw [hreverse]
    dsimp only
    rw [List.reverse_reverse, hwalk]
    dsimp only
    split_ifs <;> simp

/-- The last name of a path is looked for as soon as the parent is a directory. -/
lemma place_ne_missing_of_hasParent (h : p.HasParent q) (hp : p.text ≠ "")
    (hq : q.text = "" ∨ t.isDirectory q = true)
    (hends : ∀ names, p.names = names ++ ["."] → names = []) :
    t.place p ≠ .error .missing := by
  obtain ⟨parent, hparent, hdirectory⟩ : ∃ parent, t.walk q = .ok parent ∧
      t.node parent = some .directory := by
    rcases hq with hempty | hq
    · refine ⟨t.start q, ?_, t.node_start q⟩
      rw [walk, names_of_text_eq hempty]
      rfl
    · exact ⟨_, walk_of_isDirectory hq⟩
  rcases List.eq_nil_or_concat' p.names with hnil | ⟨before, last, hnames⟩
  · obtain ⟨before, last, after, hall, -⟩ := h.liesIn.names
    simp [hnil] at hall
  · by_cases hlast : last = "."
    · obtain rfl := hends before (hlast ▸ hnames)
      exact place_ne_missing hp hnames rfl
    · obtain ⟨dots, rfl, hdots⟩ := h.liesIn.names_eq hnames hlast
      have hwalk : (q.names ++ dots).foldlM t.enter (t.start p) = .ok parent := by
        rw [start, ← h.liesIn.absolute, ← start, walk_append_ok hparent]
        exact walk_dots hdots hdirectory
      exact place_ne_missing hp hnames hwalk

/-- Whatever part of its directories is there, a path's directories can be created where it is a
directory in the end. -/
lemma makeChain_of_grows (h : Grows u v) (hp : p.text = "" ∨ v.isDirectory p = true)
    (hends : ∀ names, p.names = names ++ ["."] → names = []) :
    (u.makeChain (p :: p.ancestors)).2 = none ∧ Grows (u.makeChain (p :: p.ancestors)).1 v := by
  induction p using Path.parent_induction with
  | top p hnone =>
    by_cases htext : p.text = ""
    · rw [makeChain_of_text_eq u htext]
      exact ⟨rfl, h⟩
    have hdirectory := hp.resolve_left htext
    rcases settle_of_grows h hdirectory with ⟨-, hplace⟩ | ⟨hne, hsettle⟩
    · -- the path has at most one name
      rcases List.eq_nil_or_concat' p.names with hnil | ⟨before, last, hnames⟩
      · rw [place, pathRefusal?_of_isDirectory hdirectory, hnil] at hplace
        cases hplace
      · have hlast := Path.eq_of_mem_names hnone (n := last) (by rw [hnames]; simp)
        obtain rfl := hends before (hlast ▸ hnames)
        exact absurd hplace (place_ne_missing htext hnames rfl)
    · rcases u.makeChain_cons p.ancestors htext with ⟨-, hchain⟩ | ⟨hmake, -⟩ |
        ⟨hmake, -⟩
      · rwa [hchain]
      · exact absurd hmake hne
      · exact absurd hmake hne
  | child p q hparent ih =>
    by_cases htext : p.text = ""
    · rw [makeChain_of_text_eq u htext]
      exact ⟨rfl, h⟩
    have hdirectory := hp.resolve_left htext
    obtain ⟨hnofault, hgrows⟩ := ih (isDirectory_of_hasParent hparent hdirectory) hparent.ends
    rw [← hparent.ancestors] at hnofault hgrows
    rcases u.makeChain_cons p.ancestors htext with ⟨hne, hchain⟩ |
      ⟨-, u', habove, hchain⟩ | ⟨-, u', refusal, habove, -⟩
    · rcases settle_of_grows h hdirectory with ⟨hmissing, -⟩ | ⟨-, hsettle⟩
      · exact absurd hmissing hne
      · rwa [hchain]
    · have hcreates := u.creates_makeChain q
      rw [habove] at hgrows
      rw [← hparent.ancestors, habove] at hcreates
      rcases settle_of_grows hgrows hdirectory with ⟨-, hplace⟩ | ⟨-, hsettle⟩
      · exact absurd hplace
          (place_ne_missing_of_hasParent hparent htext (hcreates.isDirectory rfl) hends)
      · rwa [hchain]
    · rw [habove] at hnofault
      cases hnofault

/-- The path without text leads to the working directory. -/
lemma node_target_of_text_eq (t : FileTree) (hp : p.text = "") :
    t.node (t.target p) = some .directory := by
  rw [target, names_of_text_eq hp]
  exact t.node_start p

/-- Where a directory is, the paths that it lies in lead to directories. -/
lemma node_target_of_isDirectory (hp : t.isDirectory p = true) :
    ∀ q ∈ p :: p.ancestors, t.node (t.target q) = some .directory := by
  intro q hq
  by_cases hempty : q.text = ""
  · exact node_target_of_text_eq _ hempty
  · refine (walk_of_isDirectory ?_).2
    rcases List.mem_cons.mp hq with rfl | hq
    · exact hp
    · exact isDirectory_ancestors hp q hq hempty

/-- A tree that has grown by nothing but the directories of a path, and has all of them, is the tree
that their creation leaves. -/
lemma makeDirectories_of_growsAlong (h : GrowsAlong (p :: p.ancestors) u v)
    (hp : v.isDirectory p = true) (hends : ∀ names, p.names = names ++ ["."] → names = []) :
    u.makeDirectories p = (v, none) := by
  obtain ⟨hnofault, hgrows⟩ := makeChain_of_grows h.toGrows (.inr hp) hends
  have hcreates := u.creates_makeChain p
  rw [makeDirectories_eq]
  generalize u.makeChain (p :: p.ancestors) = outcome at hnofault hgrows hcreates
  rw [if_pos (.inl hnofault)]
  have htext : p.text ≠ "" := by
    intro hempty
    rw [isDirectory, lookup, locate, pathRefusal?, if_pos hempty] at hp
    cases hp
  -- all directories that the path lies in are there
  have hall := node_target_of_isDirectory ((hcreates.isDirectory hnofault).resolve_left htext)
  refine Prod.ext_iff.mpr ⟨ext_node hgrows.process.symm fun location => ?_, rfl⟩
  rcases hgrows.node location with hsame | ⟨hnone, hnew⟩
  · exact hsame.symm
  · have hbefore : u.node location = none := by
      by_contra hsome
      obtain ⟨node, hnode⟩ := Option.ne_none_iff_exists'.mp hsome
      rw [hcreates.grows.node_eq hnode] at hnone
      cases hnone
    obtain ⟨q, hq, rfl⟩ := h.created location hbefore (by simp [hnew])
    rw [← hcreates.grows.target_eq, hall q hq] at hnone
    cases hnone

/-- It makes no difference whether some directories of a path are there before, provided that one
way or the other the path becomes a directory. -/
lemma makeDirectories_congr (h : GrowsAlong (p :: p.ancestors) u v)
    (hends : ∀ names, p.names = names ++ ["."] → names = [])
    (hp : (u.makeDirectories p).1.isDirectory p = true ∨
      (v.makeDirectories p).1.isDirectory p = true) :
    v.makeDirectories p = u.makeDirectories p := by
  rcases hp with hu | hv
  · have hgrows := u.growsAlong_makeDirectories p
    have hall := node_target_of_isDirectory hu
    have hv : GrowsAlong (p :: p.ancestors) v (u.makeDirectories p).1 := by
      refine ⟨⟨hgrows.process.trans h.process.symm, ?_⟩, ?_⟩
      · intro location
        rcases h.node location with hsame | ⟨hnone, hdirectory⟩
        · rw [hsame]
          exact hgrows.node location
        · -- what `v` has in advance is a directory of the path
          obtain ⟨q, hq, rfl⟩ := h.created location hnone (by simp [hdirectory])
          rw [hdirectory, ← hgrows.target_eq, hall q hq]
          exact .inl rfl
      · intro location hnone hsome
        simp only [h.target_eq]
        refine hgrows.created location ?_ hsome
        rcases h.node location with hsame | ⟨-, hdirectory⟩
        · rw [← hsame, hnone]
        · rw [hdirectory] at hnone
          cases hnone
    rw [makeDirectories_of_growsAlong hv hu hends,
      makeDirectories_of_growsAlong hgrows hu hends]
  · have hgrows := v.growsAlong_makeDirectories p
    rw [makeDirectories_of_growsAlong (h.trans hgrows) hv hends,
      makeDirectories_of_growsAlong hgrows hv hends]

end WaveAccess.FileTree
