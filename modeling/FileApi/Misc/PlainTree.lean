import FileApi.Misc.FileTree

/-!
# Ways without links

Where a path goes down without links on its way, it leads nowhere but to the place of its names. A
tree that is changed below a directory, where no file was before, still has all its files.
-/

namespace FileApi.FileTree

variable {ν β : Type} {t t' : List ν → Option (Node ν β)} {dir place above root : List ν}
  {steps back : List (Step ν)} {name : ν} {limit : Nat} {follow : Bool}

theorem names_of_stays (h : stays steps = true) : names steps = [] := by
  induction steps with
  | nil => rfl
  | cons step steps ih =>
    cases step with
    | here => exact ih h
    | up => cases h
    | down name => cases h

theorem directory_above (hrooted : ∀ name dir, t (name :: dir) ≠ none → t dir = some .directory)
    (hplace : t place ≠ none) (habove : above <:+ place) (hne : above ≠ place) :
    t above = some .directory := by
  induction place with
  | nil => exact absurd (List.suffix_nil.mp habove) hne
  | cons name place ih =>
    have hparent := hrooted name place hplace
    rcases List.suffix_cons_iff.mp habove with heq | habove
    · exact absurd heq hne
    · by_cases heq : above = place
      · rw [heq]
        exact hparent
      · apply ih _ habove heq
        rw [hparent]
        simp

/-! ## The place of a path -/

/-- The path goes down, and there is no link on its way. -/
structure Plainly (t : List ν → Option (Node ν β)) (dir : List ν) (steps : List (Step ν)) :
    Prop where
  up : .up ∉ steps
  plain : ∀ place route, dir <:+ place → place <:+ (names steps).reverse ++ dir →
    t place ≠ some (.link route)

theorem Plainly.front (h : Plainly t dir (steps ++ back)) : Plainly t dir steps := by
  refine ⟨fun hin => h.up (List.mem_append_left _ hin), ?_⟩
  intro place route hdir hplace
  apply h.plain place route hdir
  rw [names_append, List.reverse_append, List.append_assoc]
  exact hplace.trans (List.suffix_append _ _)

/-- A path without links leads to the place of its names. -/
theorem Plainly.walk_place (h : Plainly t dir steps)
    (hwalk : (walk t follow limit dir steps).place? = some place) :
    place = (names steps).reverse ++ dir := by
  have hstep : ∀ (again : List ν → List (Step ν) → Found ν) (steps : List (Step ν)) (dir : List ν),
      Plainly t dir steps → (walkWith t again follow dir steps).place? = some place →
      place = (names steps).reverse ++ dir := by
    intro again steps
    induction steps with
    | nil =>
      intro dir _ hwalk
      cases hwalk
      rfl
    | cons step steps ih =>
      intro dir h hwalk
      obtain ⟨hup, hups⟩ := not_or.mp fun hin => h.up (List.mem_cons.mpr hin)
      cases step with
      | here => exact ih dir ⟨hups, h.plain⟩ hwalk
      | up => exact absurd rfl hup
      | down name =>
        have hplain := h.plain
        rw [names, List.reverse_cons, List.append_assoc] at hplain ⊢
        by_cases hdir : t (name :: dir) = some .directory
        · rw [walkWith, hdir] at hwalk
          apply ih (name :: dir) ⟨hups, ?_⟩ hwalk
          intro place route hbelow hplace
          exact hplain place route ((List.suffix_cons _ _).trans hbelow) hplace
        · have hlink : ∀ route, t (name :: dir) ≠ some (.link route) := fun route =>
            hplain _ route (List.suffix_cons _ _) (List.suffix_append _ _)
          obtain ⟨hstays, hat⟩ := stays_of_place hlink hdir hwalk
          rw [hat, names_of_stays hstays]
          rfl
  cases limit with
  | zero => exact hstep _ steps dir h hwalk
  | succ limit => exact hstep _ steps dir h hwalk

theorem Plainly.entry_place (h : Plainly t dir steps)
    (hentry : entry t limit dir steps = some place) : place = (names steps).reverse ++ dir := by
  obtain ⟨front, name, parent, hsplit, hwalk, -, rfl⟩ := entry_eq_some hentry
  obtain ⟨back, hback, rfl⟩ := splitLastName_eq_some hsplit
  have hparent : parent = (names front).reverse ++ dir :=
    h.front.walk_place (by rw [hwalk]; rfl)
  rw [hparent, names_append, names, names_of_stays hback, List.reverse_append]
  rfl

theorem walk_to_file
    (hrooted : ∀ name dir, t (name :: dir) ≠ none → t dir = some .directory) (hup : .up ∉ steps)
    {content : β} (hfile : t (name :: (names steps).reverse) = some (.file content)) :
    walk t true limit [] (steps ++ [.down name]) = .there (name :: (names steps).reverse) := by
  have hthere : t (name :: (names steps).reverse) ≠ none := by simp [hfile]
  have hparent := hrooted name _ hthere
  have hwalk : walk t true limit [] steps = .there (names steps).reverse := by
    rw [← List.append_nil (names steps).reverse]
    apply walk_of_directories hup
    intro place hplace _ _
    rw [List.append_nil] at hplace
    apply directory_above hrooted hthere (hplace.trans (List.suffix_cons _ _))
    rintro rfl
    exact absurd hplace.length_le (Nat.not_succ_le_self _)
  apply walk_append hwalk hparent
  intro again
  rw [walkWith, hfile]
  rfl

theorem walk_file_last (hroot : t [] = some .directory)
    (hrooted : ∀ name dir, t (name :: dir) ≠ none → t dir = some .directory) {step : Step ν}
    {content : β} (hfile : t place = some (.file content))
    (hwalk : walk t true limit [] (steps ++ [step]) = .there place) : step ≠ .here := by
  rintro rfl
  obtain ⟨mid, again, -, hmid, hlast⟩ :=
    walk_append_there hroot hrooted hroot (List.cons_ne_nil _ _) hwalk
  cases hlast
  rw [hmid] at hfile
  cases hfile

/-! ## Changes below a directory -/

/-- A place below a directory. -/
def Beneath (root place : List ν) : Prop := root <:+ place ∧ place ≠ root

/-- The directory is there, and no link is in it. -/
structure PlainDirectory (root : List ν) (t : List ν → Option (Node ν β)) : Prop where
  directory : t root = some .directory
  plain : ∀ place route, root <:+ place → t place ≠ some (.link route)

/-- What was outside of the directory is as it was, the files in it are, and there are no links. -/
structure Contained (root : List ν) (t t' : List ν → Option (Node ν β)) : Prop where
  outside : ∀ place, ¬ Beneath root place → t' place = t place
  files : ∀ place content, t place = some (.file content) → t' place = some (.file content)
  plain : PlainDirectory root t'

namespace Contained

theorem refl (h : PlainDirectory root t) : Contained root t t :=
  ⟨fun _ _ => rfl, fun _ _ hfile => hfile, h⟩

theorem update [DecidableEq ν] (h : Contained root t t') (hbeneath : Beneath root place)
    (hnew : ∀ content, t place ≠ some (.file content)) {node : Option (Node ν β)}
    (hnode : ∀ route, node ≠ some (.link route)) :
    Contained root t (Function.update t' place node) := by
  refine ⟨?_, ?_, ?_, ?_⟩
  · intro q hq
    rw [Function.update_of_ne, h.outside q hq]
    rintro rfl
    exact hq hbeneath
  · intro q content hfile
    rw [Function.update_of_ne, h.files q content hfile]
    rintro rfl
    exact hnew content hfile
  · rw [Function.update_of_ne hbeneath.2.symm]
    exact h.plain.directory
  · intro q route hq
    rw [Function.update_apply]
    split
    · exact hnode route
    · exact h.plain.plain q route hq

end Contained

theorem PlainDirectory.plainly (h : PlainDirectory root t)
    (hrooted : ∀ name dir, t (name :: dir) ≠ none → t dir = some .directory) (hup : .up ∉ steps)
    (hnames : root <:+ (names steps).reverse ∨ (names steps).reverse <:+ root) :
    Plainly t [] steps := by
  refine ⟨hup, ?_⟩
  intro place route _ hplace
  rw [List.append_nil] at hplace
  have hside : root <:+ place ∨ place <:+ root := by
    rcases hnames with hbelow | habove
    · exact List.suffix_or_suffix_of_suffix hbelow hplace
    · exact .inr (hplace.trans habove)
  rcases hside with hbelow | habove
  · exact h.plain place route hbelow
  · by_cases heq : place = root
    · rw [heq, h.directory]
      simp
    · rw [directory_above hrooted (by simp [h.directory]) habove heq]
      simp

end FileApi.FileTree
