import Idylla.Vfs.Mount

namespace Idylla.Vfs

/-!
# Confinement below the root of a process

A process whose root is no mounted root stays below it, whatever path it
resolves.  From the root of a mounted filesystem `..` leaves the mount before
`vnode_get` compares the vnode with the root of the process, and the walk gets
out.
-/

/--
What makes the contents of the mounted filesystems trees: names are found in
directories, `.` and `..` name the directory and the one above it, and a
root is an entry of no directory.
-/
structure FilesystemTree (mounts : Mounts) : Prop where
  lookup_directory : ∀ directory name ino,
      mounts.ns.lookup directory name = some ino →
      mounts.ns.isDir directory = true
  dot_self : ∀ directory ino, mounts.ns.lookup directory dot = some ino →
      ino = directory.ino
  dotDot_entry : ∀ directory name ino parent, name ≠ dot → name ≠ dotDot →
      mounts.ns.lookup directory name = some ino →
      mounts.ns.lookup { mp := directory.mp, ino := ino } dotDot = some parent →
      parent = directory.ino
  dotDot_root : ∀ mp < mounts.count, ∀ ino,
      mounts.ns.lookup (mounts.ns.mountpoint mp).rootVnode dotDot = some ino →
      ino = (mounts.ns.mountpoint mp).rootVnode.ino
  root_no_entry : ∀ directory name ino, name ≠ dot → name ≠ dotDot →
      mounts.ns.lookup directory name = some ino →
      { mp := directory.mp, ino := ino } ≠
        (mounts.ns.mountpoint directory.mp).rootVnode
  dotDot_above : ∀ directory, mounts.ns.isDir directory = true →
      directory ≠ (mounts.ns.mountpoint directory.mp).rootVnode →
      ∃ ino,
        mounts.ns.lookup directory dotDot = some ino ∧ ino ≠ directory.ino ∧
          mounts.ns.opens { mp := directory.mp, ino := ino } = true

/-- The vnodes below a root, across the filesystems mounted there. -/
inductive Subtree (mounts : Mounts) (root : Vnode) : Vnode → Prop where
  | root : Subtree mounts root root
  | entry {directory : Vnode} {name : List Char} {ino : Nat}
      (inside : Subtree mounts root directory)
      (notDot : name ≠ dot)
      (notDotDot : name ≠ dotDot)
      (found : mounts.ns.lookup directory name = some ino) :
      Subtree mounts root { mp := directory.mp, ino := ino }
  | mounted {vnode : Vnode} {mp : Nat} (inside : Subtree mounts root vnode)
      (bounded : mp < mounts.count)
      (isParent : (mounts.ns.mountpoint mp).parentVnode = some vnode) :
      Subtree mounts root (mounts.ns.mountpoint mp).rootVnode

/-- A vnode is the root of a filesystem mounted over another vnode. -/
def MountedRoot (mounts : Mounts) (vnode : Vnode) : Prop :=
  vnode = (mounts.ns.mountpoint vnode.mp).rootVnode ∧
    (mounts.ns.mountpoint vnode.mp).parentVnode ≠ none

namespace Subtree

variable {mounts : Mounts} {root : Vnode}

variable {vnode : Vnode}

theorem later (sound : MountsSound mounts)
    (inside : Subtree mounts root vnode) : root.mp ≤ vnode.mp := by
  induction inside with
  | root =>
    exact Nat.le_refl _
  | entry _ _ _ _ ih =>
    exact ih
  | mounted _ bounded isParent ih =>
    rw [sound.root_mp _ bounded]
    have earlier := sound.parent_earlier _ bounded _ isParent
    omega

theorem enterMount (sound : MountsSound mounts)
    (inside : Subtree mounts root vnode) :
    Subtree mounts root (Vfs.enterMount mounts.ns vnode) := by
  unfold Vfs.enterMount
  split
  next mp covered =>
    obtain ⟨bounded, isParent⟩ := sound.mounted_here _ mp covered
    exact .mounted inside bounded isParent
  · exact inside

theorem parent_inside
    (sound : MountsSound mounts) (tree : FilesystemTree mounts)
    {vnode parent : Vnode} (inside : Subtree mounts root vnode)
    (below : vnode ≠ root)
    (isRoot : vnode = (mounts.ns.mountpoint vnode.mp).rootVnode)
    (isParent : (mounts.ns.mountpoint vnode.mp).parentVnode = some parent) :
    Subtree mounts root parent := by
  cases inside with
  | root =>
    exact absurd rfl below
  | entry inside notDot notDotDot found =>
    exact absurd isRoot (tree.root_no_entry _ _ _ notDot notDotDot found)
  | mounted inside bounded isParent' =>
    rw [sound.root_mp _ bounded, isParent', Option.some.injEq] at isParent
    exact isParent ▸ inside

theorem leaveMount (sound : MountsSound mounts) (tree : FilesystemTree mounts)
    (notMountedRoot : ¬ MountedRoot mounts root)
    (inside : Subtree mounts root vnode) (name : List Char) :
    Subtree mounts root (Vfs.leaveMount mounts.ns vnode name) := by
  unfold Vfs.leaveMount
  dsimp only
  split
  next leaves =>
    cases isParent : (mounts.ns.mountpoint vnode.mp).parentVnode with
    | none =>
      exact inside
    | some parent =>
      refine inside.parent_inside sound tree ?_ leaves.2 isParent
      rintro rfl
      exact notMountedRoot ⟨leaves.2, by simp [isParent]⟩
  · exact inside

theorem above (tree : FilesystemTree mounts) {ino : Nat}
    (inside : Subtree mounts root vnode) (below : vnode ≠ root)
    (found : mounts.ns.lookup vnode dotDot = some ino) :
    Subtree mounts root { mp := vnode.mp, ino := ino } := by
  cases inside with
  | root =>
    exact absurd rfl below
  | @entry directory name entry inside notDot notDotDot isEntry =>
    rw [tree.dotDot_entry directory name entry ino notDot notDotDot
      isEntry found]
    exact inside
  | mounted inside bounded isParent =>
    rw [tree.dotDot_root _ bounded ino found]
    exact .mounted inside bounded isParent

theorem findVnode (sound : MountsSound mounts) (tree : FilesystemTree mounts)
    {vnode newVnode : Vnode} {name : List Char}
    (inside : Subtree mounts root vnode)
    (unguarded : ¬ (name = dotDot ∧ vnode = root))
    (found : findVnode mounts.ns vnode name = .ok newVnode) :
    Subtree mounts root newVnode := by
  obtain ⟨ino, looked, rfl⟩ := findVnode_ok mounts.ns found
  apply enterMount sound
  by_cases isDot : name = dot
  · subst isDot
    rw [tree.dot_self vnode ino looked]
    exact inside
  · by_cases isDotDot : name = dotDot
    · subst isDotDot
      exact inside.above tree (fun atRoot => unguarded ⟨rfl, atRoot⟩) looked
    · exact .entry inside isDot isDotDot looked

end Subtree

end Idylla.Vfs
