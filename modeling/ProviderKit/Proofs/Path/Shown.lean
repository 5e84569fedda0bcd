import ProviderKit.Build.Pipeline
import ProviderKit.Proofs.Disk.Parts

/-!
# Paths and the forms in which they are shown

The text of a path reads back as the path (`ofText_text`), since the names of a path that was read
are pieces between slashes. A path that is shown to someone who stands in a directory is shown by
its full text, or by the names that lead to it from there. Either form denotes the path as seen from
the directory, and it is relative just where the path lies at or below the directory
(`join_shownFrom`), which is for the names to tell and not for the texts: `/p/dist2` does not lie
below `/p/dist`. So what a build says of its archive denotes the archive
(`Build.join_shownFrom_archivePath`).
-/

namespace ProviderKit.Path

/-- The name is a piece between the slashes of a text, and says something. -/
structure IsPiece (name : Text) : Prop where
  nonempty : name ≠ []
  notDot : name ≠ Text.ofString "."
  slashless : CodePoint.char '/' ∉ name

/-- The components of a path: where it begins, if it does not begin where it is seen from, and its
names. -/
def components (p : Path) : List Text :=
  if p.isAbsolute then p.root.text :: p.names else p.names

/-! ## Texts of paths -/

/-- The names of a path that was read are pieces. -/
theorem isPiece_of_mem_namesOf {t name : Text} (h : name ∈ namesOf t) : IsPiece name := by
  obtain ⟨hsplit, hcounts⟩ := List.mem_filter.1 h
  simp only [Bool.and_eq_true, Bool.not_eq_true', List.isEmpty_eq_false_iff, bne_iff_ne] at hcounts
  exact ⟨hcounts.1, hcounts.2, Disk.slashless_of_mem_split hsplit⟩

/-- Pieces are found again between the slashes of a text. -/
theorem namesOf_join {names : List Text} (h : ∀ name ∈ names, IsPiece name) :
    namesOf (Text.join "/" names) = names := by
  by_cases hnil : names = []
  · subst hnil
    rfl
  have hsplit : Text.split (.char '/') (Text.join "/" names) = names :=
    Text.split_join (fun name hname => (h name hname).slashless) hnil
  rw [namesOf, hsplit, List.filter_eq_self]
  intro name hname
  simpa using ⟨(h name hname).nonempty, (h name hname).notDot⟩

/-- A slash in front of a text leaves its names as they are. -/
theorem namesOf_slash (t : Text) : namesOf (.char '/' :: t) = namesOf t := by
  rw [namesOf, Text.split, if_pos rfl]
  rfl

/-- Pieces with slashes between them do not begin with a slash. -/
theorem head_join_ne {names : List Text} (h : ∀ name ∈ names, IsPiece name) :
    (Text.join "/" names).head? ≠ some (.char '/') := by
  cases names with
  | nil => rintro ⟨⟩
  | cons name names =>
    have hpiece := h name List.mem_cons_self
    obtain ⟨c, rest, rfl⟩ := List.exists_cons_of_ne_nil hpiece.nonempty
    have hjoin : Text.join "/" ((c :: rest) :: names) = c :: Text.join "/" (rest :: names) :=
      Text.join_cons_cons c rest names
    rw [hjoin, List.head?_cons, Ne, Option.some.injEq]
    rintro rfl
    exact hpiece.slashless List.mem_cons_self

/-- A text that does not begin with a slash is that of a relative path. -/
theorem rootOf_eq_relative {t : Text} (h : t.head? ≠ some (.char '/')) :
    rootOf t = .relative := by
  cases t with
  | nil => rfl
  | cons c t =>
    have hc : c ≠ .char '/' := fun heq => h (by rw [heq, List.head?_cons])
    simp [rootOf, hc]

/-- One slash in front of it, or two, make it that of a path which begins so. -/
theorem rootOf_slashes {t : Text} (h : t.head? ≠ some (.char '/')) :
    rootOf (.char '/' :: t) = .single ∧ rootOf (.char '/' :: .char '/' :: t) = .double := by
  cases t with
  | nil => exact ⟨rfl, rfl⟩
  | cons c t =>
    have hc : c ≠ .char '/' := fun heq => h (by rw [heq, List.head?_cons])
    exact ⟨by simp [rootOf, hc], by simp [rootOf, hc]⟩

/-- The text of a path of pieces reads back as the path. -/
theorem ofText_text {p : Path} (h : ∀ name ∈ p.names, IsPiece name) : ofText p.text = p := by
  obtain ⟨root, names⟩ := p
  have hhead := head_join_ne h
  have hnames := namesOf_join h
  cases root with
  | relative =>
    cases names with
    | nil => rfl
    | cons name rest =>
      show (⟨rootOf (Text.join "/" (name :: rest)),
        namesOf (Text.join "/" (name :: rest))⟩ : Path) = ⟨.relative, name :: rest⟩
      rw [rootOf_eq_relative hhead, hnames]
  | single =>
    show (⟨rootOf (.char '/' :: Text.join "/" names),
      namesOf (.char '/' :: Text.join "/" names)⟩ : Path) = ⟨.single, names⟩
    rw [(rootOf_slashes hhead).1, namesOf_slash, hnames]
  | double =>
    show (⟨rootOf (.char '/' :: .char '/' :: Text.join "/" names),
      namesOf (.char '/' :: .char '/' :: Text.join "/" names)⟩ : Path) = ⟨.double, names⟩
    rw [(rootOf_slashes hhead).2, namesOf_slash, namesOf_slash, hnames]

/-! ## Paths as they are shown -/

/-- A path lies at or below another one: it begins where the other one begins, and with its
names. -/
def LiesBelow (path base : Path) : Prop := path.root = base.root ∧ base.names <+: path.names

instance (path base : Path) : Decidable (path.LiesBelow base) := inferInstanceAs (Decidable (_ ∧ _))

/-- An absolute path lies below another one if its components begin with those of the other one. -/
theorem components_prefix_iff {path base : Path} (hpath : path.isAbsolute = true)
    (hbase : base.isAbsolute = true) :
    base.components <+: path.components ↔ path.LiesBelow base := by
  have hroot : ∀ {a b : Root}, a.text = b.text ↔ b = a := by
    rintro ⟨⟩ ⟨⟩ <;> decide
  rw [components, components, if_pos hpath, if_pos hbase, List.cons_prefix_cons, hroot, LiesBelow]

/-- A path that lies below the base is shown by the names that lead to it, any other one in full. -/
theorem shownFrom_eq (path base : Path) : path.shownFrom base =
    if path.LiesBelow base then (⟨.relative, path.names.drop base.names.length⟩ : Path).text
    else path.text := by
  have hbelow : (path.root = base.root && base.names.isPrefixOf path.names) =
      decide (path.LiesBelow base) := by
    rw [Bool.eq_iff_iff, decide_eq_true_eq, LiesBelow, Bool.and_eq_true, decide_eq_true_eq,
      List.isPrefixOf_iff_prefix]
  rw [shownFrom, below?, hbelow]
  by_cases h : path.LiesBelow base
  · simp only [h, decide_true, if_true]
  · simp only [h, decide_false, Bool.false_eq_true, if_false]

section

variable {path base : Path} (hpieces : ∀ name ∈ path.names, IsPiece name)
include hpieces

/-- What is shown of a path below the base reads as the names behind those of the base. -/
theorem ofText_shownFrom (h : path.LiesBelow base) :
    ofText (path.shownFrom base) = ⟨.relative, path.names.drop base.names.length⟩ := by
  rw [shownFrom_eq, if_pos h]
  exact ofText_text fun name hname => hpieces name (List.drop_subset _ _ hname)

/-- What is shown of any other path reads as the path. -/
theorem ofText_shownFrom_of_not (h : ¬ path.LiesBelow base) :
    ofText (path.shownFrom base) = path := by
  rw [shownFrom_eq, if_neg h, ofText_text hpieces]

/-- As seen from the base, what is shown of an absolute path denotes the path. -/
theorem join_ofText_shownFrom (hpath : path.isAbsolute = true) :
    base.join (.ofText (path.shownFrom base)) = path := by
  by_cases h : path.LiesBelow base
  · obtain ⟨hroot, names, hnames⟩ := id h
    rw [ofText_shownFrom hpieces h, ← hnames, List.drop_left, join, if_neg (by simp [isAbsolute])]
    dsimp only
    rw [hnames, ← hroot]
  · rw [ofText_shownFrom_of_not hpieces h, join, if_pos hpath]

/-- What is shown is relative if the path lies below the base. -/
theorem isAbsolute_shownFrom (hpath : path.isAbsolute = true) :
    (ofText (path.shownFrom base)).isAbsolute = false ↔ path.LiesBelow base := by
  by_cases h : path.LiesBelow base
  · rw [ofText_shownFrom hpieces h]
    exact ⟨fun _ => h, fun _ => rfl⟩
  · rw [ofText_shownFrom_of_not hpieces h, hpath]
    simpa using h

/-- Below the base nothing is shown with a slash in front. -/
theorem head_shownFrom (h : path.LiesBelow base) :
    (path.shownFrom base).head? ≠ some (.char '/') := by
  rw [shownFrom_eq, if_pos h]
  rcases hnames : path.names.drop base.names.length with _ | ⟨name, names⟩
  · decide
  · exact head_join_ne fun n hn => hpieces n (List.drop_subset _ _ (hnames ▸ hn))

/-- Below the base a dot is shown for the base only. -/
theorem shownFrom_eq_dot (h : path.LiesBelow base) :
    path.shownFrom base = Text.ofString "." ↔ path = base := by
  obtain ⟨hroot, names, hnames⟩ := id h
  constructor
  · intro hdot
    -- The dot is the text of no names, so that the names of the base are all there are.
    have hread := ofText_shownFrom hpieces h
    rw [hdot, ← hnames, List.drop_left] at hread
    obtain rfl : [] = names := (Path.mk.inj hread).2
    obtain ⟨root, own⟩ := path
    obtain ⟨root', own'⟩ := base
    rw [List.append_nil] at hnames
    dsimp only at hroot hnames
    rw [hroot, hnames]
  · rintro rfl
    rw [shownFrom_eq, if_pos h, List.drop_length]
    rfl

end

/-- Two absolute paths, as they are read from any texts. As seen from the base, the form in which
the path is shown denotes the path. The form is relative exactly if the components of the path begin
with those of the base; then it does not begin with a slash, and it is a dot only if the path is the
base. -/
theorem join_shownFrom {s t : Text} (hs : (ofText s).isAbsolute = true)
    (ht : (ofText t).isAbsolute = true) :
    (ofText t).join (.ofText ((ofText s).shownFrom (ofText t))) = ofText s ∧
    ((ofText ((ofText s).shownFrom (ofText t))).isAbsolute = false ↔
      (ofText t).components <+: (ofText s).components) ∧
    ((ofText t).components <+: (ofText s).components →
      ((ofText s).shownFrom (ofText t)).head? ≠ some (.char '/') ∧
      ((ofText s).shownFrom (ofText t) = Text.ofString "." ↔ ofText s = ofText t)) := by
  have hpieces : ∀ name ∈ (ofText s).names, IsPiece name := fun _ => isPiece_of_mem_namesOf
  rw [components_prefix_iff hs ht]
  exact ⟨join_ofText_shownFrom hpieces hs, isAbsolute_shownFrom hpieces hs,
    fun h => ⟨head_shownFrom hpieces h, shownFrom_eq_dot hpieces h⟩⟩

/-- A path below the base and one beside it, whose text begins with that of the base, each in a
spelling that says more than it must. -/
theorem join_shownFrom_beside :
    (ofText "//p/dist/./..//x").isAbsolute = true ∧ (ofText "//p//dist/").isAbsolute = true ∧
    (ofText "/p/dist2").isAbsolute = true ∧ (ofText "/p/dist").isAbsolute = true ∧
    (ofText "//p/dist/./..//x").shownFrom (ofText "//p//dist/") = "../x" ∧
    (ofText "//p//dist/").join (ofText "../x") = ofText "//p/dist/./..//x" ∧
    (ofText "/p/dist2").shownFrom (ofText "/p/dist") = "/p/dist2" ∧
    ¬ (ofText "/p/dist").components <+: (ofText "/p/dist2").components := by
  have hbelow := join_shownFrom (s := "//p/dist/./..//x") (t := "//p//dist/") (by decide)
    (by decide)
  have hbeside := join_shownFrom (s := "/p/dist2") (t := "/p/dist") (by decide) (by decide)
  have hshown : (ofText "//p/dist/./..//x").shownFrom (ofText "//p//dist/") = "../x" := by
    decide +kernel
  have hfull : (ofText "/p/dist2").shownFrom (ofText "/p/dist") = "/p/dist2" := by decide +kernel
  rw [hshown] at hbelow
  rw [hfull] at hbeside
  exact ⟨by decide, by decide, by decide, by decide, hshown, hbelow.1, hfull,
    fun h => absurd (hbeside.2.1.2 h) (by decide)⟩

end ProviderKit.Path

namespace ProviderKit.Build

/-- What a build says of its archive denotes the archive, as seen from the project, whatever the
package is called. -/
theorem join_shownFrom_archivePath {b : Build} {t : Text} (hdirectory : b.directory = .ofText t)
    (habsolute : b.directory.isAbsolute = true) (name : Text) :
    b.directory.join (.ofText ((b.archivePath name).shownFrom b.directory)) =
      b.archivePath name := by
  have hdist : ∀ name ∈ (b.directory.child distName).names, Path.IsPiece name := by
    intro name hname
    rcases List.mem_append.1 hname with hfront | hlast
    · exact Path.isPiece_of_mem_namesOf (hdirectory ▸ hfront)
    · exact List.mem_singleton.1 hlast ▸ ⟨by decide, by decide, by decide⟩
  by_cases hgiven : (Path.ofText (name ++ ".tar.gz")).isAbsolute = true
  · have harchive : b.archivePath name = .ofText (name ++ ".tar.gz") := if_pos hgiven
    rw [harchive]
    exact Path.join_ofText_shownFrom (fun _ => Path.isPiece_of_mem_namesOf) hgiven
  · have harchive : b.archivePath name = ⟨b.directory.root,
        (b.directory.child distName).names ++ Path.namesOf (name ++ ".tar.gz")⟩ := if_neg hgiven
    rw [harchive]
    refine Path.join_ofText_shownFrom (fun n hn => ?_) habsolute
    rcases List.mem_append.1 hn with hfront | hback
    · exact hdist n hfront
    · exact Path.isPiece_of_mem_namesOf hback

end ProviderKit.Build
