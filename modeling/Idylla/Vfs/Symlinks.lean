import Idylla.Vfs.VnodeGet

namespace Idylla.Vfs

/-!
# Symbolic links in the middle of a path

At a symbolic link `vnode_get` starts again with the target alone: the
components behind the link are dropped.  What a path means is stated on its
own, by splicing the target in front of them, and the resolution of a path
with a link is compared with that of the path in which the target stands for
the link.
-/

/-- The components of a path. -/
def names (path : List Char) : List (List Char) :=
  strExplode path '/'

/-- Nothing, or a string with a slash at its start. -/
def StartsWithSlash (string : List Char) : Prop :=
  string = [] ∨ ∃ behind, string = '/' :: behind

section Splitting

variable {before inside behind : List Char}

theorem names_append_of_endsInSlash
    (ends : EndsInSlash before) (inside : List Char) :
    names (before ++ inside) = names before ++ names inside := by
  rcases ends with rfl | ⟨directory, rfl⟩
  · rfl
  · unfold names
    rw [List.append_assoc, List.singleton_append,
      strExplode_append_separator, strExplode_append_separator]
    simp [strExplode]

theorem names_append_of_startsWithSlash
    (inside : List Char) (starts : StartsWithSlash behind) :
    names (inside ++ behind) = names inside ++ names behind := by
  rcases starts with rfl | ⟨later, rfl⟩
  · simp [names, strExplode]
  · unfold names
    rw [strExplode_append_separator]
    rfl

end Splitting

section Passing

variable (ns : Namespace) (process : Process)

/-- The walk over components none of which is the last of its table. -/
def passTable : List (List Char) → Vnode → Component
  | [], vnode => .enter vnode
  | name :: rest, start =>
    let vnode := leaveMount ns start name
    if name = dotDot ∧ vnode = process.vnodeRoot then
      passTable rest vnode
    else
      match visit ns process true vnode name false with
      | .enter newVnode => passTable rest newVnode
      | .link target path => .link target path
      | .stop result => .stop result

/--
What a path means: its components lead from one vnode to another, with the
target of every link in front of the components behind it.
-/
inductive Leads : Vnode → List (List Char) → Vnode → Prop where
  | here {vnode : Vnode} : Leads vnode [] vnode
  | guarded {start last : Vnode} {name : List Char} {rest : List (List Char)}
      (atRoot : name = dotDot ∧ leaveMount ns start name = process.vnodeRoot)
      (later : Leads process.vnodeRoot rest last) :
      Leads start (name :: rest) last
  | enter {start newVnode last : Vnode} {name : List Char}
      {rest : List (List Char)}
      (unguarded :
        ¬ (name = dotDot ∧ leaveMount ns start name = process.vnodeRoot))
      (enters :
        visit ns process true (leaveMount ns start name) name false =
          .enter newVnode)
      (later : Leads newVnode rest last) :
      Leads start (name :: rest) last
  | link {start target last : Vnode} {name path : List Char}
      {rest : List (List Char)}
      (unguarded :
        ¬ (name = dotDot ∧ leaveMount ns start name = process.vnodeRoot))
      (links :
        visit ns process true (leaveMount ns start name) name false =
          .link target path)
      (later : Leads target (names path ++ rest) last) :
      Leads start (name :: rest) last

/--
The outcome of the loops of `vnode_get` over a table, however many links they
follow: a link is followed without the components behind it.
-/
inductive Yields :
    Vnode → List (List Char) → Except Errno Vnode → Prop where
  | done {start : Vnode} {table : List (List Char)}
      {result : Except Errno Vnode}
      (ends : (walkTable ns process true table start).outcome = .done result) :
      Yields start table result
  | link {start target : Vnode} {table : List (List Char)}
      {path : List Char} {result : Except Errno Vnode}
      (links :
        (walkTable ns process true table start).outcome = .link target path)
      (later : Yields target (names path) result) :
      Yields start table result

/-- The walk over a path passes a number of links. -/
inductive Traverses : Vnode → List Char → Nat → Prop where
  | done {start : Vnode} {path : List Char} {result : Except Errno Vnode}
      (ends :
        (walkTable ns process true (names path) start).outcome = .done result) :
      Traverses start path 0
  | link {start target : Vnode} {path next : List Char} {links : Nat}
      (meets :
        (walkTable ns process true (names path) start).outcome =
          .link target next)
      (later : Traverses target next links) :
      Traverses start path (links + 1)

/-- Fewer than `SYMLOOP_MAX` links are traversed. -/
def FewLinks (path : List Char) : Prop :=
  ∃ links, links < SYMLOOP_MAX ∧
    Traverses ns process (startVnode process path) path links

end Passing

variable {ns : Namespace} {process : Process}

theorem walkTable_outcome_of_visits
    {name : List Char} {rest : List (List Char)} {start : Vnode}
    (unguarded :
      ¬ (name = dotDot ∧ leaveMount ns start name = process.vnodeRoot)) :
    (walkTable ns process true (name :: rest) start).outcome =
      match visit ns process true (leaveMount ns start name) name
          rest.isEmpty with
      | .stop result => .done result
      | .link target path => .link target path
      | .enter newVnode =>
        (walkTable ns process true rest newVnode).outcome := by
  rw [walkTable_visits unguarded]
  dsimp only
  cases visit ns process true (leaveMount ns start name) name rest.isEmpty with
  | stop result => rfl
  | link target path => rfl
  | enter newVnode => rfl

theorem walkTable_append (first : List (List Char)) {second : List (List Char)}
    (more : second ≠ []) (start : Vnode) :
    (walkTable ns process true (first ++ second) start).outcome =
      match passTable ns process first start with
      | .enter vnode => (walkTable ns process true second vnode).outcome
      | .link target path => .link target path
      | .stop result => .done result := by
  induction first generalizing start with
  | nil => rfl
  | cons name rest ih =>
    have notLast : (rest ++ second).isEmpty = false := by
      cases rest <;> cases second <;> simp_all
    rw [List.cons_append, passTable]
    by_cases guarded :
        name = dotDot ∧ leaveMount ns start name = process.vnodeRoot
    · rw [walkTable_guarded guarded, if_pos guarded, guarded.2]
      exact ih process.vnodeRoot
    · rw [walkTable_outcome_of_visits guarded, if_neg guarded, notLast]
      cases visit ns process true (leaveMount ns start name) name false with
      | stop result => rfl
      | link target path => rfl
      | enter newVnode => exact ih newVnode

/-- What a component is as the last one and in front of others. -/
inductive LastAndInner : Component → Component → Prop where
  | link (target : Vnode) (path : List Char) :
      LastAndInner (.link target path) (.link target path)
  | fails (err : Errno) :
      LastAndInner (.stop (.error err)) (.stop (.error err))
  | enters (vnode : Vnode) :
      LastAndInner (.stop (.ok vnode)) (.enter vnode)
  | refused (vnode : Vnode) (err : Errno) :
      LastAndInner (.stop (.ok vnode)) (.stop (.error err))

theorem visit_lastAndInner (vnode : Vnode) (name : List Char) :
    LastAndInner (visit ns process true vnode name true)
      (visit ns process true vnode name false) := by
  unfold visit
  cases findVnode ns vnode name with
  | error err => exact .fails err
  | ok newVnode =>
    dsimp only
    by_cases follows : ns.isLnk newVnode ∧ true = true
    · rw [if_pos follows, if_pos follows]
      cases ns.readlink newVnode with
      | none => exact .fails Errno.ENOTSUP
      | some read =>
        cases read with
        | error err => exact .fails err
        | ok path => exact .link _ path
    · rw [if_neg follows, if_neg follows, if_pos rfl, if_neg Bool.false_ne_true]
      by_cases directory : ¬ ns.isDir vnode = true
      · rw [if_pos directory]
        exact .refused newVnode Errno.ENOTDIR
      · rw [if_neg directory]
        by_cases refused : ¬ doSysAccess ns newVnode 1 process = true
        · rw [if_pos refused]
          exact .refused newVnode Errno.EACCES
        · rw [if_neg refused]
          exact .enters newVnode

/-- The end of a walk as if it were a component. -/
def Outcome.component : Outcome → Component
  | .done result => .stop result
  | .link target path => .link target path

theorem walkTable_lastAndInner (table : List (List Char)) (start : Vnode) :
    LastAndInner (walkTable ns process true table start).outcome.component
      (passTable ns process table start) := by
  induction table generalizing start with
  | nil => exact .enters start
  | cons name rest ih =>
    rw [passTable]
    by_cases guarded :
        name = dotDot ∧ leaveMount ns start name = process.vnodeRoot
    · rw [walkTable_guarded guarded, if_pos guarded, guarded.2]
      exact ih process.vnodeRoot
    · rw [walkTable_outcome_of_visits guarded, if_neg guarded]
      have both :=
        @visit_lastAndInner ns process (leaveMount ns start name) name
      cases rest with
      | nil =>
        rw [List.isEmpty_nil]
        generalize visit ns process true (leaveMount ns start name)
          name false = inner at both ⊢
        generalize visit ns process true (leaveMount ns start name)
          name true = asLast at both ⊢
        cases both with
        | link target path => exact .link target path
        | fails err => exact .fails err
        | enters vnode => exact .enters vnode
        | refused vnode err => exact .refused vnode err
      | cons next later =>
        rw [List.isEmpty_cons]
        generalize visit ns process true (leaveMount ns start name)
          name false = inner at both ⊢
        cases inner with
        | stop result =>
          generalize visit ns process true
            (leaveMount ns start name) name true = asLast at both
          cases both with
          | fails err => exact .fails err
          | refused vnode err => exact .fails err
        | link target path => exact .link target path
        | enter newVnode => exact ih newVnode

theorem table_cases (ns : Namespace) (process : Process)
    (table : List (List Char)) (start : Vnode) :
    (∃ target path,
      (walkTable ns process true table start).outcome = .link target path ∧
        passTable ns process table start = .link target path) ∨
    (∃ err,
      (walkTable ns process true table start).outcome = .done (.error err) ∧
        passTable ns process table start = .stop (.error err)) ∨
    (∃ vnode,
      (walkTable ns process true table start).outcome = .done (.ok vnode) ∧
        passTable ns process table start = .enter vnode) ∨
    (∃ vnode err,
      (walkTable ns process true table start).outcome = .done (.ok vnode) ∧
        passTable ns process table start = .stop (.error err)) := by
  have both := @walkTable_lastAndInner ns process table start
  cases ends : (walkTable ns process true table start).outcome with
  | link target path =>
    rw [ends] at both
    generalize passTable ns process table start = inner at both ⊢
    cases both
    exact .inl ⟨_, _, rfl, rfl⟩
  | done result =>
    rw [ends] at both
    generalize passTable ns process table start = inner at both ⊢
    cases both with
    | fails err => exact .inr (.inl ⟨err, rfl, rfl⟩)
    | enters vnode => exact .inr (.inr (.inl ⟨vnode, rfl, rfl⟩))
    | refused vnode err =>
      exact .inr (.inr (.inr ⟨vnode, err, rfl, rfl⟩))

theorem Leads.passes {start last : Vnode} {table : List (List Char)}
    (leads : Leads ns process start table last) :
    passTable ns process table start = .enter last ∨
      ∃ target path, passTable ns process table start = .link target path := by
  induction leads with
  | here => exact .inl rfl
  | guarded atRoot later ih =>
    rw [passTable]
    rw [if_pos atRoot, atRoot.2]
    exact ih
  | enter unguarded enters later ih =>
    rw [passTable]
    rw [if_neg unguarded, enters]
    exact ih
  | link unguarded links later ih =>
    right
    rw [passTable]
    rw [if_neg unguarded, links]
    exact ⟨_, _, rfl⟩

theorem Yields.unique {start : Vnode} {table : List (List Char)}
    {first second : Except Errno Vnode}
    (yields : Yields ns process start table first)
    (other : Yields ns process start table second) : first = second := by
  induction yields with
  | done ends =>
    cases other with
    | done endsToo =>
      exact Outcome.done.inj (ends.symm.trans endsToo)
    | link links later =>
      exact absurd (ends.symm.trans links) (by simp)
  | link links later ih =>
    cases other with
    | done ends =>
      exact absurd (ends.symm.trans links) (by simp)
    | link linksToo laterToo =>
      obtain ⟨rfl, rfl⟩ := Outcome.link.inj (links.symm.trans linksToo)
      exact ih laterToo

theorem yields_iff_of_outcome
    {start otherStart : Vnode} {table other : List (List Char)}
    (same :
      (walkTable ns process true table start).outcome =
        (walkTable ns process true other otherStart).outcome)
    (result : Except Errno Vnode) :
    Yields ns process start table result ↔
      Yields ns process otherStart other result := by
  constructor
  · intro yields
    cases yields with
    | done ends => exact .done (same ▸ ends)
    | link links later => exact .link (same ▸ links) later
  · intro yields
    cases yields with
    | done ends => exact .done (same ▸ ends)
    | link links later => exact .link (same ▸ links) later

theorem yields_iff_of_done
    {start : Vnode} {table : List (List Char)} {ending : Except Errno Vnode}
    (ends : (walkTable ns process true table start).outcome = .done ending)
    (result : Except Errno Vnode) :
    Yields ns process start table result ↔ result = ending := by
  constructor
  · intro yields
    exact yields.unique (.done ends)
  · rintro rfl
    exact .done ends

theorem yields_iff_of_link
    {start target : Vnode} {table : List (List Char)} {path : List Char}
    (links :
      (walkTable ns process true table start).outcome = .link target path)
    (result : Except Errno Vnode) :
    Yields ns process start table result ↔
      Yields ns process target (names path) result := by
  constructor
  · intro yields
    cases yields with
    | done ends => exact absurd (links.symm.trans ends) (by simp)
    | link linksToo later =>
      obtain ⟨rfl, rfl⟩ := Outcome.link.inj (links.symm.trans linksToo)
      exact later
  · exact .link links

theorem Traverses.followLinks
    {start : Vnode} {path : List Char} {links tries : Nat}
    (traverses : Traverses ns process start path links)
    (enough : links < tries) :
    Yields ns process start (names path)
      (followLinks ns process true tries start path).result := by
  induction traverses generalizing tries with
  | done ends =>
    obtain ⟨less, rfl⟩ := Nat.exists_eq_add_of_lt enough
    refine .done ?_
    rw [Vfs.followLinks]
    rw [← names, ends]
  | link meets later ih =>
    obtain ⟨less, rfl⟩ := Nat.exists_eq_add_of_lt enough
    refine .link meets ?_
    rw [Vfs.followLinks]
    rw [← names, meets]
    exact ih (by omega)

theorem followLinks_eloop (tries : Nat) (start : Vnode) (path : List Char)
    (tooMany :
      ¬ ∃ links, links < tries ∧ Traverses ns process start path links) :
    (followLinks ns process true tries start path).result = .error .ELOOP := by
  induction tries generalizing start path with
  | zero => rfl
  | succ tries ih =>
    rw [followLinks]
    rw [← names]
    cases meets : (walkTable ns process true (names path) start).outcome with
    | done result =>
      exact absurd ⟨0, Nat.succ_pos tries, .done meets⟩ tooMany
    | link target next =>
      refine ih target next ?_
      rintro ⟨links, few, traverses⟩
      exact tooMany ⟨links + 1, Nat.succ_lt_succ few, .link meets traverses⟩

theorem yields_vnodeGet {path : List Char} (few : FewLinks ns process path) :
    Yields ns process (startVnode process path) (names path)
      (vnodeGet ns process true path) := by
  obtain ⟨links, less, traverses⟩ := few
  exact traverses.followLinks less

theorem vnodeGet_eq_iff {first second : List Char}
    (fewFirst : FewLinks ns process first)
    (fewSecond : FewLinks ns process second) :
    vnodeGet ns process true first = vnodeGet ns process true second ↔
      ∃ result,
        Yields ns process (startVnode process first) (names first) result ∧
          Yields ns process (startVnode process second) (names second)
            result := by
  have resultFirst := yields_vnodeGet fewFirst
  have resultSecond := yields_vnodeGet fewSecond
  constructor
  · intro same
    exact ⟨_, resultFirst, same ▸ resultSecond⟩
  · rintro ⟨result, first, second⟩
    rw [resultFirst.unique first, resultSecond.unique second]

/--
Components behind a table make no difference: there are none, the walk does
not get past the table, or they lead back to where the table leads.
-/
def NoDifference
    (ns : Namespace) (process : Process) (table behind : List (List Char))
    (start : Vnode) : Prop :=
  behind = [] ∨
    (∀ vnode,
      (walkTable ns process true table start).outcome ≠ .done (.ok vnode)) ∨
    ∃ vnode,
      passTable ns process table start = .enter vnode ∧
        Yields ns process vnode behind (.ok vnode)

theorem yields_append_of_enter {table : List (List Char)} {start vnode : Vnode}
    (passes : passTable ns process table start = .enter vnode)
    (behind : List (List Char)) (result : Except Errno Vnode) :
    Yields ns process start (table ++ behind) result ↔
      Yields ns process vnode behind result := by
  refine yields_iff_of_outcome ?_ result
  by_cases more : behind = []
  · subst more
    rw [List.append_nil, walkTable_nil]
    rcases table_cases ns process table start with
      ⟨_, _, _, other⟩ | ⟨_, _, other⟩ | ⟨_, ends, other⟩ |
      ⟨_, _, _, other⟩
    · exact absurd (passes.symm.trans other) (by simp)
    · exact absurd (passes.symm.trans other) (by simp)
    · rw [Component.enter.inj (passes.symm.trans other)]
      exact ends
    · exact absurd (passes.symm.trans other) (by simp)
  · rw [walkTable_append table more, passes]

theorem outcome_append_of_link
    {table : List (List Char)} {start target : Vnode} {path : List Char}
    (links : passTable ns process table start = .link target path)
    (behind : List (List Char)) :
    (walkTable ns process true (table ++ behind) start).outcome =
      .link target path := by
  by_cases more : behind = []
  · subst more
    rw [List.append_nil]
    rcases table_cases ns process table start with
      ⟨_, _, ends, other⟩ | ⟨_, _, other⟩ | ⟨_, _, other⟩ |
      ⟨_, _, _, other⟩
    · rw [ends]
      obtain ⟨rfl, rfl⟩ := Component.link.inj (links.symm.trans other)
      rfl
    · exact absurd (links.symm.trans other) (by simp)
    · exact absurd (links.symm.trans other) (by simp)
    · exact absurd (links.symm.trans other) (by simp)
  · rw [walkTable_append table more, links]

theorem agree_iff_noDifference {table behind : List (List Char)} {start : Vnode}
    {ending : Except Errno Vnode}
    (yields : Yields ns process start table ending) :
    Yields ns process start (table ++ behind) ending ↔
      NoDifference ns process table behind start := by
  by_cases more : behind = []
  · rw [more, List.append_nil]
    exact ⟨fun _ => .inl rfl, fun _ => yields⟩
  have whole := @walkTable_append ns process table behind more start
  unfold NoDifference
  rcases table_cases ns process table start with
    ⟨target, path, ends, inner⟩ | ⟨err, ends, inner⟩ |
    ⟨vnode, ends, inner⟩ | ⟨vnode, err, ends, inner⟩
  · rw [inner] at whole
    have same := yields_iff_of_outcome (ends.trans whole.symm) ending
    exact ⟨fun _ => .inr (.inl (by simp [ends])), fun _ => same.mp yields⟩
  · rw [inner] at whole
    have same := yields_iff_of_outcome (ends.trans whole.symm) ending
    exact ⟨fun _ => .inr (.inl (by simp [ends])), fun _ => same.mp yields⟩
  · rw [yields_append_of_enter inner,
      (yields_iff_of_done ends ending).mp yields]
    simp [more, ends, inner]
  · -- The last component of a target need not be searched; the one in
    -- front of others must.
    rw [inner] at whole
    rw [yields_iff_of_done whole, (yields_iff_of_done ends ending).mp yields]
    simp [more, ends, inner]

/-- A path through a link, and the target the link holds. -/
structure LinkInPath where
  before : List Char
  link : List Char
  behind : List Char
  target : List Char

namespace LinkInPath

/-- The path as it is given. -/
def path (parts : LinkInPath) : List Char :=
  parts.before ++ (parts.link ++ parts.behind)

/-- The target starts at the root. -/
def IsAbsolute (parts : LinkInPath) : Prop :=
  parts.target[0]? = some '/'

instance (parts : LinkInPath) : Decidable parts.IsAbsolute :=
  inferInstanceAs (Decidable (_ = _))

/-- The path in which the target stands for the link. -/
def spliced (parts : LinkInPath) : List Char :=
  if parts.IsAbsolute then
    parts.target ++ parts.behind
  else
    parts.before ++ (parts.target ++ parts.behind)

/-- Where the target is resolved from. -/
def base (parts : LinkInPath) (process : Process) (directory : Vnode) : Vnode :=
  if parts.IsAbsolute then process.vnodeRoot else directory

/-- In the directory the path leads to, the name is that of a link. -/
structure Denotes
    (ns : Namespace) (process : Process) (parts : LinkInPath)
    (directory vnode : Vnode) : Prop where
  endsInSlash : EndsInSlash parts.before
  linkNonempty : parts.link ≠ []
  linkNoSlash : '/' ∉ parts.link
  linkNotDotDot : parts.link ≠ dotDot
  startsWithSlash : StartsWithSlash parts.behind
  splicedNonempty : parts.before ++ parts.target ≠ []
  leads : Leads ns process (startVnode process parts.path) (names parts.before)
      directory
  found : findVnode ns directory parts.link = .ok vnode
  isLnk : ns.isLnk vnode = true
  readlink : ns.readlink vnode = some (.ok parts.target)

/--
What the restart loses makes no difference.  At the link itself that is what
stands behind it; where the components in front pass a link already, the
restart there has lost the link as well.
-/
def LosesNothing (parts : LinkInPath) (ns : Namespace)
    (process : Process) : Prop :=
  match passTable ns process (names parts.before)
      (startVnode process parts.path) with
  | .enter directory =>
    NoDifference ns process (names parts.target) (names parts.behind)
      (parts.base process directory)
  | .link start target =>
    ¬ parts.IsAbsolute ∨
      ∃ result,
        Yields ns process start (names target) result ∧
          Yields ns process process.vnodeRoot
            (names parts.target ++ names parts.behind) result
  | .stop _ => False

variable {parts : LinkInPath} {directory vnode : Vnode}

variable (denotes : parts.Denotes ns process directory vnode)

include denotes

theorem Denotes.names_path :
    names parts.path =
      names parts.before ++ (parts.link :: names parts.behind) := by
  have single : names parts.link = [parts.link] :=
    strExplode_name denotes.linkNoSlash denotes.linkNonempty
  rw [path, names_append_of_endsInSlash denotes.endsInSlash,
    names_append_of_startsWithSlash parts.link denotes.startsWithSlash,
    single]
  rfl

theorem Denotes.names_spliced :
    names parts.spliced =
      if parts.IsAbsolute then
        names parts.target ++ names parts.behind
      else
        names parts.before ++ (names parts.target ++ names parts.behind) := by
  unfold spliced
  split
  · exact names_append_of_startsWithSlash _ denotes.startsWithSlash
  · rw [names_append_of_endsInSlash denotes.endsInSlash,
      names_append_of_startsWithSlash _ denotes.startsWithSlash]

theorem Denotes.startVnode_spliced :
    startVnode process parts.spliced =
      if parts.IsAbsolute then process.vnodeRoot
      else startVnode process parts.path := by
  have nonempty := denotes.splicedNonempty
  unfold spliced startVnode
  by_cases isAbsolute : parts.IsAbsolute
  · rw [if_pos isAbsolute, if_pos isAbsolute]
    unfold IsAbsolute at isAbsolute
    cases holds : parts.target with
    | nil => simp [holds] at isAbsolute
    | cons first rest =>
      rw [holds] at isAbsolute
      rw [if_pos (by simpa using isAbsolute)]
  · rw [if_neg isAbsolute, if_neg isAbsolute]
    unfold path
    cases holds : parts.before with
    | cons first rest => rfl
    | nil =>
      have relative : parts.target[0]? ≠ some '/' := isAbsolute
      have noSlash := denotes.linkNoSlash
      rw [holds, List.nil_append] at nonempty
      have linkNonempty := denotes.linkNonempty
      cases holdsLink : parts.link with
      | nil => exact absurd holdsLink linkNonempty
      | cons first rest =>
        cases holdsTarget : parts.target with
        | nil => exact absurd holdsTarget nonempty
        | cons firstOfTarget restOfTarget =>
          rw [holdsTarget] at relative
          rw [holdsLink] at noSlash
          have other : first ≠ '/' := by
            rintro rfl
            exact noSlash (List.mem_cons_self ..)
          rw [if_neg (by simpa using relative), if_neg (by simpa using other)]

theorem Denotes.visit_link (isLast : Bool) :
    visit ns process true directory parts.link isLast =
      .link (parts.base process directory) parts.target := by
  unfold visit base IsAbsolute
  rw [denotes.found]
  simp only [denotes.isLnk, denotes.readlink, and_self, ↓reduceIte]
  rfl

theorem Denotes.yields_path
    (passes :
      passTable ns process (names parts.before)
        (startVnode process parts.path) = .enter directory)
    (result : Except Errno Vnode) :
    Yields ns process (startVnode process parts.path)
        (names parts.path) result ↔
      Yields ns process (parts.base process directory)
        (names parts.target) result := by
  have stays : leaveMount ns directory parts.link = directory :=
    leaveMount_of_ne ns denotes.linkNotDotDot directory
  rw [denotes.names_path, yields_append_of_enter passes]
  refine yields_iff_of_link ?_ result
  rw [walkTable_outcome_of_visits
    (fun guarded => denotes.linkNotDotDot guarded.1), stays,
    denotes.visit_link]

theorem Denotes.yields_spliced
    (passes :
      passTable ns process (names parts.before)
        (startVnode process parts.path) = .enter directory)
    (result : Except Errno Vnode) :
    Yields ns process (startVnode process parts.spliced)
        (names parts.spliced) result ↔
      Yields ns process (parts.base process directory)
        (names parts.target ++ names parts.behind) result := by
  rw [denotes.names_spliced, denotes.startVnode_spliced, base]
  split
  · rfl
  · exact yields_append_of_enter passes _ result

theorem Denotes.agree_of_link {target : Vnode} {next : List Char}
    (links :
      passTable ns process (names parts.before)
        (startVnode process parts.path) = .link target next)
    {ending : Except Errno Vnode}
    (yields :
      Yields ns process (startVnode process parts.path)
        (names parts.path) ending) :
    Yields ns process (startVnode process parts.spliced)
        (names parts.spliced) ending ↔
      ¬ parts.IsAbsolute ∨
        ∃ result,
          Yields ns process target (names next) result ∧
            Yields ns process process.vnodeRoot
              (names parts.target ++ names parts.behind) result := by
  rw [denotes.names_path] at yields
  have atLink :=
    (yields_iff_of_link (outcome_append_of_link links _) ending).mp yields
  rw [denotes.names_spliced, denotes.startVnode_spliced]
  by_cases isAbsolute : parts.IsAbsolute
  · rw [if_pos isAbsolute, if_pos isAbsolute]
    constructor
    · intro other
      exact .inr ⟨ending, atLink, other⟩
    · rintro (relative | ⟨result, first, second⟩)
      · exact absurd isAbsolute relative
      · rw [atLink.unique first]
        exact second
  · rw [if_neg isAbsolute, if_neg isAbsolute]
    exact ⟨fun _ => .inl isAbsolute,
      fun _ => .link (outcome_append_of_link links _) atLink⟩

theorem Denotes.agree_iff {ending : Except Errno Vnode}
    (yields :
      Yields ns process (startVnode process parts.path)
        (names parts.path) ending) :
    Yields ns process (startVnode process parts.spliced)
        (names parts.spliced) ending ↔
      parts.LosesNothing ns process := by
  unfold LosesNothing
  rcases denotes.leads.passes with passes | ⟨target, next, links⟩
  · rw [passes, denotes.yields_spliced passes]
    exact agree_iff_noDifference ((denotes.yields_path passes ending).mp yields)
  · rw [links]
    exact denotes.agree_of_link links yields

end LinkInPath

/--
Mountpoint 0 with the directories 1 and 2, the link 3 to the directory 2 and
the file 4 in it.
-/
def linkedTree : Namespace where
  mountpoint := fun _ =>
    { rootVnode := { mp := 0, ino := 1 }
      parentVnode := none
      flags := 0
      ops :=
        { creat := false, mknod := false, mkdir := false, unlink := false } }
  vfsmountedhere := fun _ => none
  attributes := fun vnode =>
    { mode :=
        if vnode.ino = 3 then 0o120777
        else if vnode.ino = 4 then 0o100644
        else 0o040755
      uid := 0
      gid := 0 }
  opens := fun _ => true
  lookup := fun vnode name =>
    if vnode.ino = 1 ∧ name = ['d'] then some 2
    else if vnode.ino = 1 ∧ name = ['l'] then some 3
    else if vnode.ino = 2 ∧ name = ['f'] then some 4
    else none
  readlink := fun vnode =>
    some (if vnode.ino = 3 then .ok ['d'] else .error Errno.EINVAL)

/-- A process at the root of the tree. -/
def atTreeRoot : Process where
  uid := 0
  euid := 0
  gid := 0
  egid := 0
  umask := 0
  vnodeRoot := { mp := 0, ino := 1 }
  vnodeCurrent := { mp := 0, ino := 1 }

/-- The file `f` through the link `l`. -/
def fileThroughLink : LinkInPath where
  before := []
  link := ['l']
  behind := ['/', 'f']
  target := ['d']

/-- The link `l` alone. -/
def linkAlone : LinkInPath where
  before := []
  link := ['l']
  behind := []
  target := ['d']

theorem denotes_of_linkedTree {parts : LinkInPath} (first : parts.before = [])
    (link : parts.link = ['l']) (target : parts.target = ['d'])
    (behind : StartsWithSlash parts.behind) :
    parts.Denotes linkedTree atTreeRoot { mp := 0, ino := 1 }
      { mp := 0, ino := 3 } where
  endsInSlash := .inl first
  linkNonempty := by simp [link]
  linkNoSlash := by simp [link]
  linkNotDotDot := by simp [link, dotDot]
  startsWithSlash := behind
  splicedNonempty := by simp [target]
  leads := by
    have start : startVnode atTreeRoot parts.path = atTreeRoot.vnodeRoot := by
      unfold startVnode
      split <;> rfl
    rw [first, start]
    exact .here
  found := by
    rw [link]
    rfl
  isLnk := rfl
  readlink := by
    rw [target]
    rfl

/-- Through the link to a directory `vnode_get` yields the directory. -/
theorem vnodeGet_link_drops_rest :
    fileThroughLink.Denotes linkedTree atTreeRoot { mp := 0, ino := 1 }
        { mp := 0, ino := 3 } ∧
      FewLinks linkedTree atTreeRoot fileThroughLink.path ∧
      FewLinks linkedTree atTreeRoot fileThroughLink.spliced ∧
      fileThroughLink.path = "l/f".toList ∧
      fileThroughLink.spliced = "d/f".toList ∧
      vnodeGet linkedTree atTreeRoot true "l/f".toList =
        .ok { mp := 0, ino := 2 } ∧
      vnodeGet linkedTree atTreeRoot true "d/f".toList =
        .ok { mp := 0, ino := 4 } :=
  ⟨denotes_of_linkedTree rfl rfl rfl (.inr ⟨['f'], rfl⟩),
    ⟨1, by decide, .link rfl (.done rfl)⟩,
    ⟨0, by decide, .done rfl⟩,
    rfl, rfl, rfl, rfl⟩

/--
Of two paths that follow few links, one through a link and one with its
target, `vnode_get` makes the same exactly when the restart loses nothing;
any path with too many links fails with `-ELOOP`.
-/
theorem vnodeGet_link_iff (ns : Namespace) (process : Process) :
    (∀ parts directory vnode,
      LinkInPath.Denotes ns process parts directory vnode →
      FewLinks ns process parts.path →
      FewLinks ns process parts.spliced →
      (vnodeGet ns process true parts.path =
          vnodeGet ns process true parts.spliced ↔
        parts.LosesNothing ns process)) ∧
    ∀ path, ¬ FewLinks ns process path →
      vnodeGet ns process true path = .error .ELOOP := by
  constructor
  · intro parts directory vnode denotes fewGiven fewSpliced
    have yields := yields_vnodeGet fewGiven
    rw [vnodeGet_eq_iff fewGiven fewSpliced]
    constructor
    · rintro ⟨result, given, spliced⟩
      rw [← yields.unique given] at spliced
      exact (denotes.agree_iff yields).mp spliced
    · intro lossless
      exact ⟨_, yields, (denotes.agree_iff yields).mpr lossless⟩
  · intro path tooMany
    exact followLinks_eloop SYMLOOP_MAX _ path tooMany

/-- With nothing behind the link both paths yield the directory. -/
theorem vnodeGet_link_iff_linkAlone :
    vnodeGet linkedTree atTreeRoot true linkAlone.path =
        vnodeGet linkedTree atTreeRoot true linkAlone.spliced ∧
      vnodeGet linkedTree atTreeRoot true linkAlone.path =
        .ok { mp := 0, ino := 2 } :=
  ⟨((vnodeGet_link_iff linkedTree atTreeRoot).1 linkAlone _ _
      (denotes_of_linkedTree rfl rfl rfl (.inl rfl))
      ⟨1, by decide, .link rfl (.done rfl)⟩
      ⟨0, by decide, .done rfl⟩).mpr (.inl rfl),
    rfl⟩

end Idylla.Vfs
