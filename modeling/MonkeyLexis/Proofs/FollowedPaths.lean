import MonkeyLexis.FileSystem.Tree

/-!
# Followed paths

A place is a node together with the directories above it. A name leads from one place
to at most one other, or it is blocked for one cause, so a list of names is a walk from
the root or has one name that is blocked behind a walk along the names before it. What
reading a path gives can be told from that: the content of a file that the path leads
to, or the cause for which it leads nowhere.
-/

namespace MonkeyLexis
namespace FileSystem

/-- A node and the directories above it, nearest first. -/
structure Place where
  node : Node
  above : List Node

/-- The name leads from the first place to the second. -/
inductive Leads : Place → Text → Place → Prop
  | atRoot {entries : List (Text × Node)} :
    Leads ⟨.directory entries, []⟩ ['.', '.'] ⟨.directory entries, []⟩
  | up {entries : List (Text × Node)} {parent : Node} {above : List Node} :
    Leads ⟨.directory entries, parent :: above⟩ ['.', '.'] ⟨parent, above⟩
  | down {entries : List (Text × Node)} {above : List Node} {name : Text} {node : Node}
    (hname : name ≠ ['.', '.']) (hlimit : byteLength name ≤ nameLimit)
    (hentry : entries.lookup name = some node) :
    Leads ⟨.directory entries, above⟩ name ⟨node, .directory entries :: above⟩

/-- The name leads nowhere from the place, for this cause. -/
inductive Blocked : Place → Text → ReadFailure → Prop
  | file {content : Bytes} {above : List Node} {name : Text} :
    Blocked ⟨.file content, above⟩ name .notDirectory
  | tooLong {entries : List (Text × Node)} {above : List Node} {name : Text}
    (hname : name ≠ ['.', '.']) (hlimit : nameLimit < byteLength name) :
    Blocked ⟨.directory entries, above⟩ name .nameTooLong
  | missing {entries : List (Text × Node)} {above : List Node} {name : Text}
    (hname : name ≠ ['.', '.']) (hlimit : byteLength name ≤ nameLimit)
    (hentry : entries.lookup name = none) :
    Blocked ⟨.directory entries, above⟩ name .notFound

inductive Walk : Place → List Text → Place → Prop
  | nil {p : Place} : Walk p [] p
  | cons {p q r : Place} {name : Text} {names : List Text} (hstep : Leads p name q)
    (hwalk : Walk q names r) : Walk p (name :: names) r

/-- Along the names there is a walk up to one that is blocked for this cause. -/
def Stuck (p : Place) (names : List Text) (failure : ReadFailure) : Prop :=
  ∃ before name after q, names = before ++ name :: after ∧ Walk p before q ∧ Blocked q name failure

namespace Place

def follow (p : Place) (names : List Text) : Except ReadFailure Node :=
  p.node.follow p.above names

theorem follow_nil (p : Place) : p.follow [] = .ok p.node := rfl

theorem leads_or_blocked (p : Place) (name : Text) :
    (∃ q, Leads p name q) ∨ ∃ failure, Blocked p name failure := by
  obtain ⟨_ | entries, above⟩ := p
  · exact .inr ⟨_, .file⟩
  · by_cases hname : name = ['.', '.']
    · subst hname
      cases above with
      | nil => exact .inl ⟨_, .atRoot⟩
      | cons parent above => exact .inl ⟨_, .up⟩
    · by_cases hlimit : byteLength name ≤ nameLimit
      · cases hentry : entries.lookup name with
        | none => exact .inr ⟨_, .missing hname hlimit hentry⟩
        | some node => exact .inl ⟨_, .down hname hlimit hentry⟩
      · exact .inr ⟨_, .tooLong hname (Nat.lt_of_not_le hlimit)⟩

end Place

theorem Leads.follow_cons {p q : Place} {name : Text} (h : Leads p name q) (names : List Text) :
    p.follow (name :: names) = q.follow names := by
  cases h with
  | atRoot => rfl
  | up => rfl
  | down hname hlimit hentry =>
    simp only [Place.follow, Node.follow, if_neg hname, if_neg (Nat.not_lt.mpr hlimit), hentry]

theorem Blocked.follow_cons {p : Place} {name : Text} {failure : ReadFailure}
    (h : Blocked p name failure) (names : List Text) :
    p.follow (name :: names) = .error failure := by
  cases h with
  | file => rfl
  | tooLong hname hlimit => simp only [Place.follow, Node.follow, if_neg hname, if_pos hlimit]
  | missing hname hlimit hentry =>
    simp only [Place.follow, Node.follow, if_neg hname, if_neg (Nat.not_lt.mpr hlimit), hentry]

theorem Walk.follow_append {p q : Place} {before : List Text} (h : Walk p before q)
    (after : List Text) : p.follow (before ++ after) = q.follow after := by
  induction h with
  | nil => rfl
  | cons hstep _ ih => rw [List.cons_append, hstep.follow_cons, ih]

theorem Stuck.follow_eq {p : Place} {names : List Text} {failure : ReadFailure}
    (h : Stuck p names failure) : p.follow names = .error failure := by
  obtain ⟨before, name, after, q, rfl, hwalk, hblocked⟩ := h
  rw [hwalk.follow_append, hblocked.follow_cons]

theorem Stuck.ne_isDirectory {p : Place} {names : List Text} {failure : ReadFailure}
    (h : Stuck p names failure) : failure ≠ .isDirectory := by
  obtain ⟨_, _, _, _, _, _, hblocked⟩ := h
  cases hblocked <;> decide

namespace Place

/-- Names are a walk, or they get stuck. The induction is on the names. -/
theorem walk_or_stuck (p : Place) (names : List Text) :
    (∃ q, Walk p names q) ∨ ∃ failure, Stuck p names failure := by
  induction names generalizing p with
  | nil => exact .inl ⟨p, .nil⟩
  | cons name names ih =>
    rcases p.leads_or_blocked name with ⟨q, hstep⟩ | ⟨failure, hblocked⟩
    · rcases ih q with ⟨r, hwalk⟩ | ⟨failure, before, other, after, r, rfl, hwalk, hblocked⟩
      · exact .inl ⟨r, .cons hstep hwalk⟩
      · exact .inr ⟨failure, name :: before, other, after, r, rfl, .cons hstep hwalk, hblocked⟩
    · exact .inr ⟨failure, [], name, names, p, rfl, .nil, hblocked⟩

theorem follow_eq_ok_iff {p : Place} {names : List Text} {node : Node} :
    p.follow names = .ok node ↔ ∃ above, Walk p names ⟨node, above⟩ := by
  constructor
  · intro h
    rcases p.walk_or_stuck names with ⟨q, hwalk⟩ | ⟨failure, hstuck⟩
    · have hq := hwalk.follow_append []
      rw [List.append_nil, h, follow_nil] at hq
      cases hq
      exact ⟨q.above, hwalk⟩
    · rw [hstuck.follow_eq] at h
      cases h
  · rintro ⟨above, hwalk⟩
    have hnode := hwalk.follow_append []
    rwa [List.append_nil] at hnode

theorem follow_eq_error_iff {p : Place} {names : List Text} {failure : ReadFailure} :
    p.follow names = .error failure ↔ Stuck p names failure := by
  refine ⟨?_, Stuck.follow_eq⟩
  intro h
  rcases p.walk_or_stuck names with ⟨q, hwalk⟩ | ⟨cause, hstuck⟩
  · rw [follow_eq_ok_iff.mpr ⟨q.above, hwalk⟩] at h
    cases h
  · rw [hstuck.follow_eq] at h
    cases h
    exact hstuck

end Place

/-- The path has no null character and is not too long to be followed. -/
def Usable (p : Path) : Prop := '\x00' ∉ p.text ∧ byteLength p.text ≤ pathLimit

namespace Tree

variable {tree : Tree} {p : Path}

def start (tree : Tree) : Place := ⟨tree.root, []⟩

def Exists (tree : Tree) (p : Path) : Prop :=
  Usable p ∧ ∃ q, Walk tree.start (tree.route p) q

def Holds (tree : Tree) (p : Path) (content : Bytes) : Prop :=
  Usable p ∧ ∃ above, Walk tree.start (tree.route p) ⟨.file content, above⟩

/-- A directory on the way of the path lacks the name to follow. -/
def Lacks (tree : Tree) (p : Path) : Prop :=
  Usable p ∧ Stuck tree.start (tree.route p) .notFound

theorem read_of_usable (h : Usable p) :
    tree.read p = (tree.start.follow (tree.route p)).bind Node.content := by
  have hnull : p.text.contains '\x00' = false := by simpa using h.1
  rw [read, hnull, if_neg Bool.false_ne_true, if_neg (Nat.not_lt.mpr h.2)]
  rfl

theorem read_of_not_usable (tree : Tree) (h : ¬ Usable p) :
    tree.read p = .error .nullInPath ∨ tree.read p = .error .nameTooLong := by
  by_cases hnull : '\x00' ∈ p.text
  · exact .inl (if_pos (List.contains_iff_mem.mpr hnull))
  · have hlong : pathLimit < byteLength p.text := Nat.lt_of_not_le fun hle => h ⟨hnull, hle⟩
    have hcontains : ¬ p.text.contains '\x00' := by simpa using hnull
    exact .inr ((if_neg hcontains).trans (if_pos hlong))

theorem bind_content_eq_ok_iff {found : Except ReadFailure Node} {content : Bytes} :
    found.bind Node.content = .ok content ↔ found = .ok (.file content) := by
  rcases found with _ | _ | _ <;> simp [Except.bind, Node.content]

theorem bind_content_eq_notFound_iff {found : Except ReadFailure Node} :
    found.bind Node.content = .error .notFound ↔ found = .error .notFound := by
  rcases found with _ | _ | _ <;> simp [Except.bind, Node.content]

theorem read_eq_ok_iff {content : Bytes} : tree.read p = .ok content ↔ tree.Holds p content := by
  by_cases h : Usable p
  · rw [read_of_usable h, bind_content_eq_ok_iff, Place.follow_eq_ok_iff]
    exact (and_iff_right h).symm
  · have hread : tree.read p ≠ .ok content := by
      rcases tree.read_of_not_usable h with hread | hread <;> simp [hread]
    exact iff_of_false hread fun hholds => h hholds.1

theorem read_eq_notFound_iff : tree.read p = .error .notFound ↔ tree.Lacks p := by
  by_cases h : Usable p
  · rw [read_of_usable h, bind_content_eq_notFound_iff, Place.follow_eq_error_iff]
    exact (and_iff_right h).symm
  · have hread : tree.read p ≠ .error .notFound := by
      rcases tree.read_of_not_usable h with hread | hread <;> simp [hread]
    exact iff_of_false hread fun hlacks => h hlacks.1

theorem Holds.toExists {content : Bytes} (h : tree.Holds p content) : tree.Exists p := by
  obtain ⟨husable, above, hwalk⟩ := h
  exact ⟨husable, _, hwalk⟩

/-- There is something at the path exactly if it is read or turns out to be a directory. -/
theorem exists_iff_read :
    tree.Exists p ↔ (∃ content, tree.read p = .ok content) ∨ tree.read p = .error .isDirectory := by
  constructor
  · rintro ⟨husable, ⟨node, above⟩, hwalk⟩
    rw [read_of_usable husable, Place.follow_eq_ok_iff.mpr ⟨above, hwalk⟩]
    cases node with
    | file content => exact .inl ⟨content, rfl⟩
    | directory entries => exact .inr rfl
  · rintro (⟨content, hread⟩ | hread)
    · exact (read_eq_ok_iff.mp hread).toExists
    · by_cases husable : Usable p
      · rcases tree.start.walk_or_stuck (tree.route p) with hwalk | ⟨failure, hstuck⟩
        · exact ⟨husable, hwalk⟩
        · rw [read_of_usable husable, hstuck.follow_eq] at hread
          cases hread
          exact absurd rfl hstuck.ne_isDirectory
      · rcases tree.read_of_not_usable husable with h | h <;> simp [hread] at h

theorem Lacks.not_exists (h : tree.Lacks p) : ¬ tree.Exists p := by
  rw [exists_iff_read, read_eq_notFound_iff.mpr h]
  simp

/-- Where nothing is, a name is lacking or one of three causes keeps the path from being read. -/
theorem lacks_or_read_of_not_exists (h : ¬ tree.Exists p) :
    tree.Lacks p ∨ ∃ failure ∈ [ReadFailure.notDirectory, .nameTooLong, .nullInPath],
      tree.read p = .error failure := by
  cases hread : tree.read p with
  | ok content => exact absurd (exists_iff_read.mpr (.inl ⟨content, hread⟩)) h
  | error failure =>
    cases failure with
    | notFound => exact .inl (read_eq_notFound_iff.mp hread)
    | isDirectory => exact absurd (exists_iff_read.mpr (.inr hread)) h
    | notDirectory | nameTooLong | nullInPath => exact .inr ⟨_, by decide, rfl⟩

/-- Something other than a missing name keeps the path from being read. -/
inductive Bars (tree : Tree) (p : Path) : ReadFailure → Prop
  | null (hnull : '\x00' ∈ p.text) : Bars tree p .nullInPath
  | tooLong (hnull : '\x00' ∉ p.text) (hlimit : pathLimit < byteLength p.text) :
    Bars tree p .nameTooLong
  | blocked {failure : ReadFailure} (husable : Usable p) (hne : failure ≠ .notFound)
    (hstuck : Stuck tree.start (tree.route p) failure) : Bars tree p failure
  | directory {entries : List (Text × Node)} {above : List Node} (husable : Usable p)
    (hwalk : Walk tree.start (tree.route p) ⟨.directory entries, above⟩) :
    Bars tree p .isDirectory

theorem Bars.read_eq {failure : ReadFailure} (h : tree.Bars p failure) :
    tree.read p = .error failure := by
  cases h with
  | null hnull => exact if_pos (List.contains_iff_mem.mpr hnull)
  | tooLong hnull hlimit =>
    have hcontains : ¬ p.text.contains '\x00' := by simpa using hnull
    exact (if_neg hcontains).trans (if_pos hlimit)
  | blocked husable _ hstuck =>
    rw [read_of_usable husable, hstuck.follow_eq]
    rfl
  | directory husable hwalk =>
    rw [read_of_usable husable, Place.follow_eq_ok_iff.mpr ⟨_, hwalk⟩]
    rfl

/-- A path that is not read lacks a name, or it is barred for the cause that reading tells. -/
theorem read_eq_error_iff {failure : ReadFailure} (hne : failure ≠ .notFound) :
    tree.read p = .error failure ↔ tree.Bars p failure := by
  refine ⟨?_, Bars.read_eq⟩
  intro h
  -- the bar that there is has the cause that was read
  have hsome : ∃ cause, tree.Bars p cause := by
    by_cases hnull : '\x00' ∈ p.text
    · exact ⟨_, .null hnull⟩
    by_cases hlimit : byteLength p.text ≤ pathLimit
    · rcases tree.start.walk_or_stuck (tree.route p) with ⟨⟨node, above⟩, hwalk⟩ | ⟨cause, hstuck⟩
      · cases node with
        | file content =>
          rw [read_eq_ok_iff.mpr ⟨⟨hnull, hlimit⟩, above, hwalk⟩] at h
          cases h
        | directory entries => exact ⟨_, .directory ⟨hnull, hlimit⟩ hwalk⟩
      · refine ⟨cause, .blocked ⟨hnull, hlimit⟩ ?_ hstuck⟩
        rintro rfl
        rw [read_eq_notFound_iff.mpr ⟨⟨hnull, hlimit⟩, hstuck⟩] at h
        exact hne (Except.error.inj h).symm
    · exact ⟨_, .tooLong hnull (Nat.lt_of_not_le hlimit)⟩
  obtain ⟨cause, hbars⟩ := hsome
  rw [hbars.read_eq] at h
  cases h
  exact hbars

theorem Bars.ne_notFound {failure : ReadFailure} (h : tree.Bars p failure) :
    failure ≠ .notFound := by
  cases h with
  | blocked _ hne _ => exact hne
  | null | tooLong | directory => decide

end Tree
end FileSystem
end MonkeyLexis
