import Idylla.Vfs.EntryCalls

namespace Idylla.Vfs

/-!
# The split of a path and its walk

`vfs_path_split` cuts a path for the calls that create and remove entries,
`vnode_get` walks it.  The two agree except on a path of one component that
starts at the root, and on a path with two slashes at its end.
-/

/-- A walk over the path looks its last component up in a directory. -/
def LooksUpLast (ns : Namespace) (process : Process) (path : List Char)
    (directory : Vnode) : Prop :=
  ∃ lookup ∈ (resolve ns process true path).lookups,
    lookup.directory = directory ∧ lookup.rest = []

/--
The split names the entry that the walk over the whole path looks up, and so
does every call that acts on the entry.
-/
structure NamesSameEntry
    (ns : Namespace) (process : Process) (path last : List Char)
    (split : VfsPath) : Prop where
  name : split.name = last
  directory : ∀ directory, LooksUpLast ns process path directory →
      vnodeGet ns process true split.path = .ok directory
  calls : ∀ directory, LooksUpLast ns process path directory →
      ∀ (call : EntryCall) handed name operation,
        call.run ns process path = .performs handed name operation →
        handed = directory ∧ name = last

/--
When the split agrees with the walk: no two slashes at the end, and a path
of one component below the root belongs to a process that stands there.
-/
def SplitAgrees (process : Process) (path last : List Char) : Prop :=
  ¬ ['/', '/'] <:+ path ∧
    (path = '/' :: last ∨ path = '/' :: last ++ ['/'] →
      process.vnodeCurrent = process.vnodeRoot)

section Front

variable {ns : Namespace} {process : Process} {followlink : Bool}

/--
A walk that looks its last component up does so in the vnode that the walk
over the other components ends at.
-/
theorem walkTable_front
    {front : List (List Char)} {last : List Char} {start : Vnode}
    {lookup : Lookup} (notDotDot : last ≠ dotDot)
    (performed :
      lookup ∈
        (walkTable ns process followlink (front ++ [last]) start).lookups)
    (isLast : lookup.rest = []) :
    (walkTable ns process followlink front start).outcome =
      .done (.ok lookup.directory) := by
  induction front generalizing start with
  | nil =>
    rw [List.nil_append, walkTable_visits (by simp [notDotDot]),
      leaveMount_of_ne ns notDotDot] at performed
    cases visited : visit ns process followlink start last
          (List.isEmpty ([] : List (List Char))) with
    | stop result | link target path =>
      simp only [visited, List.mem_singleton] at performed
      rw [performed, walkTable_nil]
    | enter newVnode =>
      simp only [visited, walkTable_nil, List.mem_singleton] at performed
      rw [performed, walkTable_nil]
  | cons name rest ih =>
    rw [List.cons_append] at performed
    by_cases guarded :
        name = dotDot ∧ leaveMount ns start name = process.vnodeRoot
    · rw [walkTable_guarded guarded] at performed ⊢
      exact ih performed
    · rw [walkTable_visits guarded] at performed ⊢
      have moreBehind : (rest ++ [last]).isEmpty = false := by
        cases rest <;> rfl
      rw [moreBehind] at performed
      cases visited :
          visit ns process followlink (leaveMount ns start name) name false with
      | stop result | link target path =>
        simp only [visited, List.mem_singleton] at performed
        simp [performed] at isLast
      | enter newVnode =>
        simp only [visited, List.mem_cons] at performed
        rcases performed with here | later
        · simp [here] at isLast
        · have reached := ih later
          cases rest with
          | nil =>
            simpa [visit_last_of_enter visited] using reached
          | cons next others =>
            simpa [visited] using reached

theorem walkTable_single_looks {last : List Char} {start : Vnode}
    (notDotDot : last ≠ dotDot) :
    { directory := start, name := last, rest := [] } ∈
      (walkTable ns process followlink [last] start).lookups := by
  rw [walkTable_visits (by simp [notDotDot]), leaveMount_of_ne ns notDotDot]
  dsimp only
  split <;> simp

end Front

namespace PathShape

variable {path before last : List Char} {slashes : Nat}

theorem startVnode_dropLast
    (shape : PathShape path before last slashes) (process : Process)
    (notRoot : before ≠ ['/']) :
    startVnode process before.dropLast = startVnode process path := by
  rcases shape.before_ends with rfl | ⟨directory, rfl⟩
  · have notSlash : path[0]? ≠ some '/' := by
      rw [shape.isPath, List.nil_append, List.getElem?_append_left
        (List.length_pos_iff.mpr shape.nonempty)]
      exact fun isSlash => shape.noSlash (List.mem_of_getElem? isSlash)
    simp [startVnode, notSlash]
  · cases directory with
    | nil =>
      exact absurd rfl notRoot
    | cons head tail =>
      simp [startVnode, shape.isPath]

theorem path_of_before_root (shape : PathShape path ['/'] last slashes)
    (fewSlashes : slashes ≤ 1) :
    path = '/' :: last ∨ path = '/' :: last ++ ['/'] := by
  obtain rfl | rfl : slashes = 0 ∨ slashes = 1 := by omega
  · exact .inl (by simpa using shape.isPath)
  · exact .inr (by simpa using shape.isPath)

theorem of_root (noSlash : '/' ∉ last) (nonempty : last ≠ [])
    (belowRoot : path = '/' :: last ∨ path = '/' :: last ++ ['/']) :
    ∃ slashes, slashes ≤ 1 ∧ PathShape path ['/'] last slashes := by
  rcases belowRoot with rfl | rfl
  · exact ⟨0, by omega, by simp, nonempty, noSlash, .inr ⟨[], rfl⟩⟩
  · exact ⟨1, by omega, by simp, nonempty, noSlash, .inr ⟨[], rfl⟩⟩

end PathShape

section Agreement

variable {ns : Namespace} {process : Process} {path last : List Char}
  {split : VfsPath}

theorem looksUpLast_iff (symlinkFree : ∀ vnode, ns.isLnk vnode = false)
    {directory : Vnode} :
    LooksUpLast ns process path directory ↔
      ∃ lookup ∈
        (walkTable ns process true (strExplode path '/')
          (startVnode process path)).lookups,
        lookup.directory = directory ∧ lookup.rest = [] := by
  obtain ⟨result, ends⟩ : ∃ result,
        (walkTable ns process true (strExplode path '/')
          (startVnode process path)).outcome = .done result :=
    walkTable_done symlinkFree _ _
  rw [LooksUpLast, resolve_of_done ends]

theorem NamesSameEntry.of_split (splits : vfsPathSplit path = some split)
    (isName : split.name = last)
    (isDirectory :
      ∀ directory, LooksUpLast ns process path directory →
        vnodeGet ns process true split.path = .ok directory) :
    NamesSameEntry ns process path last split where
  name := isName
  directory := isDirectory
  calls := by
    intro directory looksUp call handed name operation performed
    obtain ⟨same, sameSplits, resolved, handedName⟩ :=
      entryParent_ok (EntryCall.run_performs performed)
    obtain rfl : split = same := by
      simpa [splits] using sameSplits
    have reached := isDirectory directory looksUp
    rw [resolved, Except.ok.injEq] at reached
    exact ⟨reached, handedName ▸ isName⟩

theorem SplitAgrees.namesSameEntry
    (symlinkFree : ∀ vnode, ns.isLnk vnode = false) {front : List (List Char)}
    (components : strExplode path '/' = front ++ [last])
    (notDotDot : last ≠ dotDot) (splits : vfsPathSplit path = some split)
    (agrees : SplitAgrees process path last) :
    NamesSameEntry ns process path last split := by
  obtain ⟨before, name, slashes, shape⟩ :
      ∃ before name slashes, PathShape path before name slashes :=
    exists_pathShape (by simp [components])
  obtain ⟨isFront, rfl⟩ : strExplode before '/' = front ∧ name = last := by
    have same := shape.strExplode_eq.symm.trans components
    simpa using List.append_inj' same rfl
  have fewSlashes := shape.slashes_le_one agrees.1
  obtain ⟨isDirectory, isName⟩ := shape.vfsPathSplit_eq fewSlashes splits
  refine .of_split splits isName ?_
  intro directory looksUp
  obtain ⟨lookup, performed, rfl, isLast⟩ :=
    (looksUpLast_iff symlinkFree).mp looksUp
  rw [components] at performed
  have reached := walkTable_front notDotDot performed isLast
  have sameStart :
      startVnode process before.dropLast = startVnode process path := by
    by_cases atRoot : before = ['/']
    · subst atRoot
      have standsThere := agrees.2 (shape.path_of_before_root fewSlashes)
      simp [startVnode, standsThere]
    · exact shape.startVnode_dropLast process atRoot
  rw [← isFront, ← shape.strExplode_dropLast, ← sameStart] at reached
  rw [vnodeGet, isDirectory, resolve_of_done reached]

/--
The split of a path whose last component is a proper name agrees with the
walk over the path exactly when `SplitAgrees` holds.
-/
theorem vfsPathSplit_names_same_entry_iff (ns : Namespace)
    (symlinkFree : ∀ vnode, ns.isLnk vnode = false)
    (process : Process) (path last : List Char) (front : List (List Char))
    (components : strExplode path '/' = front ++ [last]) (notDot : last ≠ dot)
    (notDotDot : last ≠ dotDot) (split : VfsPath)
    (splits : vfsPathSplit path = some split) :
    NamesSameEntry ns process path last split ↔
      SplitAgrees process path last := by
  obtain ⟨before, name, slashes, shape⟩ :
      ∃ before name slashes, PathShape path before name slashes :=
    exists_pathShape (by simp [components])
  obtain rfl : name = last := by
    have same := shape.strExplode_eq.symm.trans components
    simpa using (List.append_inj' same rfl).2
  constructor
  · intro names
    refine ⟨?_, ?_⟩
    · intro twoSlashes
      have isEmpty := vfsPathSplit_name_empty twoSlashes splits
      exact shape.nonempty (names.name.symm.trans isEmpty)
    · intro belowRoot
      obtain ⟨count, few, rootShape⟩ :=
        PathShape.of_root shape.noSlash shape.nonempty belowRoot
      have onlyComponent : strExplode path '/' = [name] := by
        simpa [strExplode] using rootShape.strExplode_eq
      have fromRoot : startVnode process path = process.vnodeRoot := by
        rcases belowRoot with rfl | rfl <;> simp [startVnode]
      have looksUp : LooksUpLast ns process path process.vnodeRoot := by
        rw [looksUpLast_iff symlinkFree, onlyComponent, fromRoot]
        exact ⟨_, walkTable_single_looks notDotDot, rfl, rfl⟩
      have resolved := names.directory _ looksUp
      rw [(rootShape.vfsPathSplit_eq few splits).1] at resolved
      simpa [vnodeGet, resolve, followLinks, SYMLOOP_MAX, strExplode,
        explodeFrom, startVnode] using resolved
  · exact SplitAgrees.namesSameEntry symlinkFree components notDotDot splits

end Agreement

/-- A filesystem of directories whose root, inode 1, holds `a`, inode 2. -/
def directoryInRoot : Namespace where
  mountpoint _ :=
    { rootVnode := { mp := 0, ino := 1 }
      parentVnode := none
      flags := 0
      ops := { creat := true, mknod := true, mkdir := true, unlink := true } }
  vfsmountedhere _ := none
  attributes _ := { mode := S_IFDIR + 0o755, uid := 0, gid := 0 }
  opens _ := true
  lookup vnode name := if vnode.ino = 1 ∧ name = ['a'] then some 2 else none
  readlink _ := none

theorem directoryInRoot_isLnk (vnode : Vnode) :
    directoryInRoot.isLnk vnode = false := by
  simp [Namespace.isLnk, Namespace.fileType, directoryInRoot, S_IFMT,
    S_IFDIR, S_IFLNK]

/-- A process that stands in `/a`. -/
def standsInDirectory : Process where
  uid := 0
  euid := 0
  gid := 0
  egid := 0
  umask := 0o022
  vnodeRoot := { mp := 0, ino := 1 }
  vnodeCurrent := { mp := 0, ino := 2 }

/--
From the current directory `/a` the path `/n` is split into the empty
directory and `n`: `/n` denotes an entry of the root, yet the split and
`sys_mkdir` name one of `/a`.
-/
theorem vfsPathSplit_misses_root :
    (∀ vnode, directoryInRoot.isLnk vnode = false) ∧
      strExplode ['/', 'n'] '/' = [] ++ [['n']] ∧
      vfsPathSplit ['/', 'n'] = some { path := [], name := ['n'] } ∧
      LooksUpLast directoryInRoot standsInDirectory ['/', 'n']
        { mp := 0, ino := 1 } ∧
      sysMkdir directoryInRoot standsInDirectory ['/', 'n'] 0o755 =
        .performs { mp := 0, ino := 2 } ['n'] (.mkdir 0o755 0 0) ∧
      ¬ NamesSameEntry directoryInRoot standsInDirectory ['/', 'n']
        ['n'] { path := [], name := ['n'] } := by
  have looksUp : LooksUpLast directoryInRoot standsInDirectory ['/', 'n']
        { mp := 0, ino := 1 } :=
    ⟨{ directory := { mp := 0, ino := 1 }, name := ['n'], rest := [] },
      List.mem_singleton.mpr rfl, rfl, rfl⟩
  refine ⟨directoryInRoot_isLnk, rfl, rfl, looksUp, rfl, ?_⟩
  intro names
  have resolved := names.directory _ looksUp
  have elsewhere : vnodeGet directoryInRoot standsInDirectory true [] =
        .ok { mp := 0, ino := 2 } := rfl
  simp [elsewhere] at resolved

/-- The split of `/a/n` agrees with its walk. -/
theorem vfsPathSplit_names_same_entry_below_directory :
    NamesSameEntry directoryInRoot standsInDirectory ['/', 'a', '/', 'n'] ['n']
        { path := ['/', 'a'], name := ['n'] } ↔
      SplitAgrees standsInDirectory ['/', 'a', '/', 'n'] ['n'] :=
  vfsPathSplit_names_same_entry_iff directoryInRoot
    directoryInRoot_isLnk standsInDirectory ['/', 'a', '/', 'n'] ['n']
    [['a']] rfl (by decide) (by decide)
    { path := ['/', 'a'], name := ['n'] } rfl

end Idylla.Vfs
