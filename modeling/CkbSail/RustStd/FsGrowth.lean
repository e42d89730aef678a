import CkbSail.RustStd.Fs
import Mathlib.Data.List.Infix
import Mathlib.Tactic.SplitIfs

/-!
# Trees that grow

Directories are made in free places, files are made there or written again.  Every path
that can be opened can be opened again then, and leads to the same place.
-/

namespace CkbSail.RustStd.Fs

/-! ## Files in free places -/

/-- A file may have been made where nothing was, or written. -/
inductive Fill {α : Type} : Option (Node α) → Option (Node α) → Prop
  | same (node : Option (Node α)) : Fill node node
  | make (contents : α) : Fill none (some (.file contents))
  | write (old new : α) : Fill (some (.file old)) (some (.file new))

/-- A file can be opened for writing here. -/
def Writable {α : Type} (node : Option (Node α)) : Prop :=
  node = none ∨ ∃ contents, node = some (.file contents)

def Fills {α : Type} (tree tree' : Tree α) : Prop := ∀ place, Fill (tree place) (tree' place)

/-- Directories and links are still there. -/
structure Keeps {α : Type} (tree tree' : Tree α) : Prop where
  directory : ∀ place, tree place = some .directory → tree' place = some .directory
  symlink : ∀ place target, tree place = some (.symlink target) →
    tree' place = some (.symlink target)

section Fills

variable {α : Type} {tree tree' tree'' : Tree α}

theorem Fill.trans {node node' node'' : Option (Node α)} (h : Fill node node')
    (h' : Fill node' node'') : Fill node node'' := by
  cases h with
  | same => exact h'
  | make contents =>
      cases h' with
      | same => exact .make _
      | write _ new => exact .make new
  | write old new =>
      cases h' with
      | same => exact .write _ _
      | write _ new' => exact .write old new'

theorem Fills.refl (tree : Tree α) : Fills tree tree := fun place => .same (tree place)

theorem Fills.trans (h : Fills tree tree') (h' : Fills tree' tree'') : Fills tree tree'' :=
  fun place => (h place).trans (h' place)

theorem Fill.directory_iff {node node' : Option (Node α)} (h : Fill node node') :
    node' = some .directory ↔ node = some .directory := by
  cases h <;> simp

theorem Fill.writable_iff {node node' : Option (Node α)} (h : Fill node node') :
    Writable node' ↔ Writable node := by
  cases h <;> simp [Writable]

theorem fills_update {place : Place} (h : Writable (tree place)) (contents : α) :
    Fills tree (Function.update tree place (some (.file contents))) := by
  intro other
  by_cases hsame : other = place
  · subst hsame
    rw [Function.update_self]
    rcases h with hnone | ⟨old, hfile⟩
    · rw [hnone]
      exact .make contents
    · rw [hfile]
      exact .write old contents
  · rw [Function.update_of_ne hsame]
    exact .same _

theorem Fills.keeps (h : Fills tree tree') : Keeps tree tree' := by
  refine ⟨fun place hplace => (h place).directory_iff.2 hplace, fun place target hplace => ?_⟩
  have hfill := h place
  rw [hplace] at hfill
  generalize tree' place = node at hfill ⊢
  cases hfill
  rfl

theorem Keeps.trans (h : Keeps tree tree') (h' : Keeps tree' tree'') : Keeps tree tree'' :=
  ⟨fun place hplace => h'.directory place (h.directory place hplace),
    fun place target hplace => h'.symlink place target (h.symlink place target hplace)⟩

end Fills

/-! ## Walks in a tree that has grown -/

/-- A name stands for the directory itself, for the one above, or for something in it. -/
theorem name_cases (name : Name) :
    name = ['.'] ∨ name = ['.', '.'] ∨ name ≠ ['.'] ∧ name ≠ ['.', '.'] := by
  by_cases hdot : name = ['.']
  · exact Or.inl hdot
  by_cases hup : name = ['.', '.']
  · exact Or.inr (Or.inl hup)
  exact Or.inr (Or.inr ⟨hdot, hup⟩)

section Follow

variable {α : Type} {tree tree' : Tree α} {fuel left : Nat} {dir place : Place} {name : Name}
  {todo rest : List Name} {jump jump' : Place → List Name → Except String (Place × Nat)}

theorem follow_dot :
    follow tree fuel jump dir (['.'] :: rest) = follow tree fuel jump dir rest := by
  rw [follow, if_pos rfl]

theorem follow_up :
    follow tree fuel jump dir (['.', '.'] :: rest) = follow tree fuel jump dir.dropLast rest := by
  rw [follow, if_neg (by decide), if_pos rfl]

theorem follow_enter (hname : name ≠ ['.'] ∧ name ≠ ['.', '.'])
    (hnode : tree (dir ++ [name]) = some .directory) :
    follow tree fuel jump dir (name :: rest) = follow tree fuel jump (dir ++ [name]) rest := by
  rw [follow, if_neg hname.1, if_neg hname.2, hnode]

theorem follow_link (hname : name ≠ ['.'] ∧ name ≠ ['.', '.']) {target : List Char}
    (hnode : tree (dir ++ [name]) = some (.symlink target)) :
    follow tree fuel jump dir (name :: rest) = jump (start dir target) (names target ++ rest) := by
  rw [follow, if_neg hname.1, if_neg hname.2, hnode]

/-- A walk that ends at a directory goes on in a directory or along a link. -/
theorem follow_through (hname : name ≠ ['.'] ∧ name ≠ ['.', '.'])
    (hplace : tree place = some .directory)
    (hfound : follow tree fuel jump dir (name :: rest) = .ok (place, left)) :
    tree (dir ++ [name]) = some .directory ∧
        follow tree fuel jump (dir ++ [name]) rest = .ok (place, left) ∨
      ∃ target, tree (dir ++ [name]) = some (.symlink target) ∧
        jump (start dir target) (names target ++ rest) = .ok (place, left) := by
  rw [follow, if_neg hname.1, if_neg hname.2] at hfound
  rcases hnode : tree (dir ++ [name]) with _ | _ | contents | target
  · -- a free place is no directory
    simp only [hnode] at hfound
    split_ifs at hfound
    obtain ⟨rfl, -⟩ := Prod.mk.inj (Except.ok.inj hfound)
    cases hnode.symm.trans hplace
  · simp only [hnode] at hfound
    exact Or.inl ⟨rfl, hfound⟩
  · -- and neither is a file
    simp only [hnode] at hfound
    split_ifs at hfound
    obtain ⟨rfl, -⟩ := Prod.mk.inj (Except.ok.inj hfound)
    cases hnode.symm.trans hplace
  · simp only [hnode] at hfound
    exact Or.inr ⟨target, rfl, hfound⟩

theorem follow_fills (h : Fills tree tree') {found : Place × Nat}
    (hjump : ∀ dir todo, jump dir todo = .ok found ↔ jump' dir todo = .ok found)
    (dir : Place) (todo : List Name) :
    follow tree fuel jump dir todo = .ok found ↔ follow tree' fuel jump' dir todo = .ok found := by
  induction todo generalizing dir with
  | nil => rfl
  | cons name rest ih =>
      obtain rfl | rfl | ⟨hdot, hup⟩ := name_cases name
      · rw [follow_dot, follow_dot]
        exact ih dir
      · rw [follow_up, follow_up]
        exact ih dir.dropLast
      · rw [follow, follow, if_neg hdot, if_neg hdot, if_neg hup, if_neg hup]
        have hfill := h (dir ++ [name])
        generalize tree (dir ++ [name]) = node, tree' (dir ++ [name]) = node' at hfill
        cases hfill with
        | same =>
            rcases node with _ | _ | _ | target
            · rfl
            · exact ih _
            · rfl
            · exact hjump _ _
        | make => cases rest <;> simp
        | write => rfl

theorem follow_keeps (h : Keeps tree tree')
    (hjump : ∀ dir todo, jump dir todo = .ok (place, left) → jump' dir todo = .ok (place, left))
    (hplace : tree place = some .directory)
    (hfound : follow tree fuel jump dir todo = .ok (place, left)) :
    follow tree' fuel jump' dir todo = .ok (place, left) := by
  induction todo generalizing dir with
  | nil => exact hfound
  | cons name rest ih =>
      obtain rfl | rfl | hname := name_cases name
      · rw [follow_dot] at hfound ⊢
        exact ih hfound
      · rw [follow_up] at hfound ⊢
        exact ih hfound
      · obtain ⟨hnode, hrest⟩ | ⟨target, hnode, hrest⟩ := follow_through hname hplace hfound
        · rw [follow_enter hname (h.directory _ hnode)]
          exact ih hrest
        · rw [follow_link hname (h.symlink _ _ hnode)]
          exact hjump _ _ hrest

theorem follow_append {goal : Except String (Place × Nat)}
    (hjump : ∀ dir todo, jump dir todo = .ok (place, left) → jump dir (todo ++ rest) = goal)
    (hplace : tree place = some .directory)
    (hgoal : left = fuel → goal = follow tree fuel jump place rest)
    (hfound : follow tree fuel jump dir todo = .ok (place, left)) :
    follow tree fuel jump dir (todo ++ rest) = goal := by
  induction todo generalizing dir with
  | nil =>
      obtain ⟨rfl, rfl⟩ := Prod.mk.inj (Except.ok.inj hfound)
      exact (hgoal rfl).symm
  | cons name todo ih =>
      rw [List.cons_append]
      obtain rfl | rfl | hname := name_cases name
      · rw [follow_dot] at hfound ⊢
        exact ih hfound
      · rw [follow_up] at hfound ⊢
        exact ih hfound
      · obtain ⟨hnode, hrest⟩ | ⟨target, hnode, hrest⟩ := follow_through hname hplace hfound
        · rw [follow_enter hname hnode]
          exact ih hrest
        · rw [follow_link hname hnode, ← List.append_assoc]
          exact hjump _ _ hrest

end Follow

section Resolve

variable {α : Type} {tree tree' : Tree α}

/-- A walk leads to the same place when files were made or written meanwhile. -/
theorem resolve_fills (h : Fills tree tree') {fuel : Nat} {dir : Place} {todo : List Name}
    {found : Place × Nat} :
    resolve tree fuel dir todo = .ok found ↔ resolve tree' fuel dir todo = .ok found := by
  induction fuel generalizing dir todo with
  | zero => exact follow_fills h (fun _ _ => Iff.rfl) dir todo
  | succ fuel ih => exact follow_fills h (fun _ _ => ih) dir todo

/-- A walk to a directory stays what it is as long as directories and links do. -/
theorem resolve_keeps (h : Keeps tree tree') {fuel left : Nat} {dir place : Place}
    {todo : List Name} (hplace : tree place = some .directory)
    (hfound : resolve tree fuel dir todo = .ok (place, left)) :
    resolve tree' fuel dir todo = .ok (place, left) := by
  induction fuel generalizing dir todo with
  | zero => exact follow_keeps h (fun _ _ hjump => hjump) hplace hfound
  | succ fuel ih => exact follow_keeps h (fun _ _ => ih) hplace hfound

/-- Beyond a directory a walk goes on from there. -/
theorem resolve_append {fuel left : Nat} {dir place : Place} {todo rest : List Name}
    (hplace : tree place = some .directory)
    (hfound : resolve tree fuel dir todo = .ok (place, left)) :
    resolve tree fuel dir (todo ++ rest) = resolve tree left place rest := by
  induction fuel generalizing dir todo with
  | zero =>
      refine follow_append (fun _ _ hjump => by cases hjump) hplace (fun hleft => ?_) hfound
      rw [hleft]
      rfl
  | succ fuel ih =>
      refine follow_append (fun _ _ => ih) hplace (fun hleft => ?_) hfound
      rw [hleft]
      rfl

theorem resolve_dot {fuel : Nat} {dir : Place} {rest : List Name} :
    resolve tree fuel dir (['.'] :: rest) = resolve tree fuel dir rest := by
  cases fuel with
  | zero => exact follow_dot
  | succ fuel => exact follow_dot

theorem resolve_up {fuel : Nat} {dir : Place} {rest : List Name} :
    resolve tree fuel dir (['.', '.'] :: rest) = resolve tree fuel dir.dropLast rest := by
  cases fuel with
  | zero => exact follow_up
  | succ fuel => exact follow_up

theorem resolve_nil {fuel : Nat} {dir : Place} :
    resolve tree fuel dir [] = .ok (dir, fuel) := by
  cases fuel with
  | zero => rfl
  | succ fuel => rfl

section Ordinary

variable {fuel : Nat} {dir : Place} {name : Name} {rest : List Name}

theorem resolve_enter (hname : name ≠ ['.'] ∧ name ≠ ['.', '.'])
    (hnode : tree (dir ++ [name]) = some .directory) :
    resolve tree fuel dir (name :: rest) = resolve tree fuel (dir ++ [name]) rest := by
  cases fuel with
  | zero => exact follow_enter hname hnode
  | succ fuel => exact follow_enter hname hnode

theorem resolve_link (hname : name ≠ ['.'] ∧ name ≠ ['.', '.']) {target : List Char}
    (hnode : tree (dir ++ [name]) = some (.symlink target)) :
    resolve tree (fuel + 1) dir (name :: rest) =
      resolve tree fuel (start dir target) (names target ++ rest) :=
  follow_link hname hnode

/-- Where no link stands the last name of a walk is taken as it is. -/
theorem resolve_last (hdot : name ≠ ['.']) (hup : name ≠ ['.', '.'])
    (hlink : ∀ target, tree (dir ++ [name]) ≠ some (.symlink target)) :
    resolve tree fuel dir [name] = .ok (dir ++ [name], fuel) := by
  cases fuel <;>
    · rw [resolve, follow, if_neg hdot, if_neg hup]
      rcases hnode : tree (dir ++ [name]) with _ | _ | contents | target
      · rfl
      · rfl
      · rfl
      · exact absurd hnode (hlink target)

end Ordinary

theorem linkedDirectory_eq_ok {fuel left : Nat} {dir place : Place} {target : List Char}
    {last : Bool} : linkedDirectory tree fuel dir target last = .ok (place, left) ↔
      ∃ n, fuel = n + 1 ∧ resolve tree n (start dir target) (names target) = .ok (place, left) ∧
        tree place = some .directory := by
  cases fuel with
  | zero => simp [linkedDirectory]
  | succ n =>
      rw [linkedDirectory]
      simp only [Nat.add_right_cancel_iff, exists_eq_left']
      rcases hresolve : resolve tree n (start dir target) (names target) with e | ⟨found, rest⟩
      · simp
      · simp only [Except.ok.injEq, Prod.mk.injEq]
        constructor
        · intro h
          rcases hnode : tree found with _ | _ | _ | _
          all_goals simp only [hnode, reduceCtorEq, Except.ok.injEq, Prod.mk.injEq] at h
          obtain ⟨rfl, rfl⟩ := h
          exact ⟨⟨rfl, rfl⟩, hnode⟩
        · rintro ⟨⟨rfl, rfl⟩, hplace⟩
          rw [hplace]

theorem linkedDirectory_keeps (h : Keeps tree tree') {fuel : Nat} {dir : Place}
    {target : List Char} {last : Bool} {found : Place × Nat}
    (hfound : linkedDirectory tree fuel dir target last = .ok found) :
    linkedDirectory tree' fuel dir target last = .ok found := by
  obtain ⟨n, hfuel, hresolve, hplace⟩ := linkedDirectory_eq_ok.1 hfound
  exact linkedDirectory_eq_ok.2
    ⟨n, hfuel, resolve_keeps h hplace hresolve, h.directory _ hplace⟩

theorem linkedDirectory_fills (h : Fills tree tree') {fuel : Nat} {dir : Place}
    {target : List Char} {last : Bool} {found : Place × Nat} :
    linkedDirectory tree fuel dir target last = .ok found ↔
      linkedDirectory tree' fuel dir target last = .ok found := by
  rw [linkedDirectory_eq_ok, linkedDirectory_eq_ok]
  simp only [resolve_fills h, (h found.1).directory_iff]

end Resolve

/-! ## Making directories -/

section MakeDirs

variable {α : Type} {fault : Place → Option String} {fuel : Nat} {dir : Place}
  {todo : List Name} {tree tree' : Tree α}

theorem makeDirs_dot {rest : List Name} :
    makeDirs fault fuel dir (['.'] :: rest) tree = makeDirs fault fuel dir rest tree := by
  rw [makeDirs, if_pos rfl]

theorem makeDirs_up {rest : List Name} : makeDirs fault fuel dir (['.', '.'] :: rest) tree =
    makeDirs fault fuel dir.dropLast rest tree := by
  rw [makeDirs, if_neg (by decide), if_pos rfl]

/-- Only free places change, and become directories. -/
theorem makeDirs_grows (place : Place) :
    (makeDirs fault fuel dir todo tree).2 place = tree place ∨
      tree place = none ∧ (makeDirs fault fuel dir todo tree).2 place = some .directory := by
  induction todo generalizing fuel dir tree with
  | nil => exact Or.inl rfl
  | cons name rest ih =>
      obtain rfl | rfl | ⟨hdot, hup⟩ := name_cases name
      · rw [makeDirs_dot]
        exact ih
      · rw [makeDirs_up]
        exact ih
      rw [makeDirs, if_neg hdot, if_neg hup]
      rcases hnode : tree (dir ++ [name]) with _ | _ | contents | target
      · cases fault (dir ++ [name]) with
        | some e => exact Or.inl rfl
        | none =>
            have hrest := @ih fuel (dir ++ [name])
              (Function.update tree (dir ++ [name]) (some .directory))
            by_cases hplace : place = dir ++ [name]
            · subst hplace
              simp only [Function.update_self, reduceCtorEq, false_and, or_false] at hrest
              exact Or.inr ⟨hnode, hrest⟩
            · simpa only [Function.update_of_ne hplace] using hrest
      · exact ih
      · exact Or.inl rfl
      · dsimp only
        cases linkedDirectory tree fuel dir target rest.isEmpty with
        | error e => exact Or.inl rfl
        | ok found => exact ih

theorem makeDirs_keeps : Keeps tree (makeDirs fault fuel dir todo tree).2 := by
  have hstays : ∀ place node, tree place = some node →
      (makeDirs fault fuel dir todo tree).2 place = some node := by
    intro place node hplace
    rcases makeDirs_grows place with hsame | ⟨hnone, -⟩
    · rw [hsame, hplace]
    · rw [hplace] at hnone
      cases hnone
  exact ⟨fun place hplace => hstays place _ hplace, fun place target hplace =>
    hstays place _ hplace⟩

/-- Whether it succeeds stays the same, and a second time it makes nothing, whatever files
were made or written meanwhile. -/
theorem makeDirs_again (h : Fills (makeDirs fault fuel dir todo tree).2 tree') :
    (makeDirs fault fuel dir todo tree').2 = tree' ∧
      (makeDirs fault fuel dir todo tree').1.isOk = (makeDirs fault fuel dir todo tree).1.isOk := by
  induction todo generalizing fuel dir tree with
  | nil => exact ⟨rfl, rfl⟩
  | cons name rest ih =>
      obtain rfl | rfl | ⟨hdot, hup⟩ := name_cases name
      · rw [makeDirs_dot] at h
        rw [makeDirs_dot, makeDirs_dot]
        exact ih h
      · rw [makeDirs_up] at h
        rw [makeDirs_up, makeDirs_up]
        exact ih h
      rw [makeDirs, if_neg hdot, if_neg hup] at h
      rw [makeDirs, if_neg hdot, if_neg hup, makeDirs, if_neg hdot, if_neg hup]
      rcases hnode : tree (dir ++ [name]) with _ | _ | contents | target
      · cases hfault : fault (dir ++ [name]) with
        | some e =>
            -- what is refused stays free, or a file gets in the way
            simp only [hnode, hfault] at h
            have hfill := h (dir ++ [name])
            rw [hnode] at hfill
            generalize hnode' : tree' (dir ++ [name]) = node' at hfill
            cases hfill with
            | same => exact ⟨rfl, rfl⟩
            | make => exact ⟨rfl, rfl⟩
        | none =>
            simp only [hnode, hfault] at h
            have hmade := (makeDirs_keeps.trans h.keeps).directory _ (Function.update_self ..)
            rw [hmade]
            exact ih h
      · simp only [hnode] at h
        rw [(makeDirs_keeps.trans h.keeps).directory _ hnode]
        exact ih h
      · simp only [hnode] at h
        have hfill := h (dir ++ [name])
        rw [hnode] at hfill
        generalize hnode' : tree' (dir ++ [name]) = node' at hfill
        cases hfill with
        | same => exact ⟨rfl, rfl⟩
        | write => exact ⟨rfl, rfl⟩
      · simp only [hnode] at h
        cases hlinked : linkedDirectory tree fuel dir target rest.isEmpty with
        | ok found =>
            simp only [hlinked] at h
            have hkeeps := makeDirs_keeps.trans h.keeps
            rw [hkeeps.symlink _ _ hnode]
            simp only [hlinked, linkedDirectory_keeps hkeeps hlinked]
            exact ih h
        | error e =>
            simp only [hlinked] at h
            rw [h.keeps.symlink _ _ hnode]
            cases hlinked' : linkedDirectory tree' fuel dir target rest.isEmpty with
            | ok found =>
                rw [(linkedDirectory_fills h).2 hlinked'] at hlinked
                cases hlinked
            | error e' =>
                simp only [hlinked, hlinked', true_and]
                rfl

/-- The directories that were made lead on. -/
theorem makeDirs_leads (h : (makeDirs fault fuel dir todo tree).1.isOk = true)
    (hkeeps : Keeps (makeDirs fault fuel dir todo tree).2 tree') :
    ∃ folder left, ∀ rest,
      resolve tree' fuel dir (todo ++ rest) = resolve tree' left folder rest := by
  induction todo generalizing fuel dir tree with
  | nil => exact ⟨dir, fuel, fun _ => rfl⟩
  | cons name todo ih =>
      obtain rfl | rfl | hname := name_cases name
      · rw [makeDirs_dot] at h hkeeps
        obtain ⟨folder, left, hrest⟩ := ih h hkeeps
        exact ⟨folder, left, fun rest => by rw [List.cons_append, resolve_dot, hrest]⟩
      · rw [makeDirs_up] at h hkeeps
        obtain ⟨folder, left, hrest⟩ := ih h hkeeps
        exact ⟨folder, left, fun rest => by rw [List.cons_append, resolve_up, hrest]⟩
      rw [makeDirs, if_neg hname.1, if_neg hname.2] at h hkeeps
      rcases hnode : tree (dir ++ [name]) with _ | _ | contents | target
      · cases hfault : fault (dir ++ [name]) with
        | some e =>
            simp only [hnode, hfault] at h
            cases h
        | none =>
            simp only [hnode, hfault] at h hkeeps
            obtain ⟨folder, left, hrest⟩ := ih h hkeeps
            have hmade := (makeDirs_keeps.trans hkeeps).directory _ (Function.update_self ..)
            exact ⟨folder, left, fun rest => by
              rw [List.cons_append, resolve_enter hname hmade, hrest]⟩
      · simp only [hnode] at h hkeeps
        obtain ⟨folder, left, hrest⟩ := ih h hkeeps
        have hthere := (makeDirs_keeps.trans hkeeps).directory _ hnode
        exact ⟨folder, left, fun rest => by
          rw [List.cons_append, resolve_enter hname hthere, hrest]⟩
      · simp only [hnode] at h
        cases h
      · simp only [hnode] at h hkeeps
        cases hlinked : linkedDirectory tree fuel dir target todo.isEmpty with
        | error e =>
            simp only [hlinked] at h
            cases h
        | ok found =>
            simp only [hlinked] at h hkeeps
            have hbefore := makeDirs_keeps.trans hkeeps
            obtain ⟨folder, left, hrest⟩ := ih h hkeeps
            obtain ⟨n, rfl, hresolve, hplace⟩ := linkedDirectory_eq_ok.1 hlinked
            refine ⟨folder, left, fun rest => ?_⟩
            rw [List.cons_append, resolve_link hname (hbefore.symlink _ _ hnode),
              resolve_append (hbefore.directory _ hplace) (resolve_keeps hbefore hplace hresolve),
              hrest]

end MakeDirs

/-! ## Writing one file after the other -/

namespace Disk

variable {α : Type} {path name : String} {disk disk' : Disk α} {place : Place}

theorem creates_eq_ok : disk.creates name = .ok place ↔
    disk.faults.openFile name = none ∧ disk.leads name = .ok place ∧
      Writable (disk.tree place) := by
  rw [creates]
  cases disk.faults.openFile name with
  | some fault => simp
  | none =>
      cases disk.leads name with
      | error e => simp
      | ok found =>
          simp only [true_and, Except.ok.injEq]
          constructor
          · intro h
            rcases hnode : disk.tree found with _ | _ | contents | _
            all_goals simp only [hnode, reduceCtorEq, Except.ok.injEq] at h
            · exact ⟨h, Or.inl (h ▸ hnode)⟩
            · exact ⟨h, Or.inr ⟨contents, h ▸ hnode⟩⟩
          · rintro ⟨rfl, hnone | ⟨contents, hfile⟩⟩
            · rw [hnone]
            · rw [hfile]

theorem write_of_none {contents : α} {part : Nat → α} (h : disk.creates name = .ok place)
    (hfault : disk.faults.write place = none) :
    disk.write name contents part = (.ok (), disk.put place contents) := by
  rw [write, h]
  simp only [hfault]

theorem write_of_some {contents : α} {part : Nat → α} {fault : Nat × String}
    (h : disk.creates name = .ok place) (hfault : disk.faults.write place = some fault) :
    disk.write name contents part = (.error fault.2, disk.put place (part fault.1)) := by
  rw [write, h]
  simp only [hfault]

theorem leads_eq_ok : disk.leads name = .ok place ↔ ∃ left, resolve disk.tree MAX_LINKS
    (start disk.workingDirectory name.toList) (names name.toList) = .ok (place, left) := by
  rw [leads]
  rcases resolve disk.tree MAX_LINKS (start disk.workingDirectory name.toList)
    (names name.toList) with e | ⟨found, left⟩
  · simp [Except.map]
  · simp [Except.map]

theorem leads_fills (hdir : disk'.workingDirectory = disk.workingDirectory)
    (h : Fills disk.tree disk'.tree) :
    disk'.leads name = .ok place ↔ disk.leads name = .ok place := by
  rw [leads_eq_ok, leads_eq_ok, hdir]
  simp only [resolve_fills h]

theorem leads_put {contents : α} {opened : Place} (h : Writable (disk.tree opened)) :
    (disk.put opened contents).leads name = .ok place ↔ disk.leads name = .ok place := by
  have hfills : Fills disk.tree (disk.put opened contents).tree := fills_update h contents
  exact leads_fills rfl hfills

/-- A disk as `create_dir_all` and `write` leave it, one time after the other. -/
structure Follows (path : String) (disk disk' : Disk α) : Prop where
  faults : disk'.faults = disk.faults
  workingDirectory : disk'.workingDirectory = disk.workingDirectory
  tree : Fills (disk.createDirAll path).2.tree (disk'.createDirAll path).2.tree
  result : (disk'.createDirAll path).1.isOk = (disk.createDirAll path).1.isOk

theorem faults_createDirAll : (disk.createDirAll path).2.faults = disk.faults := by
  unfold createDirAll
  split <;> rfl

theorem workingDirectory_createDirAll :
    (disk.createDirAll path).2.workingDirectory = disk.workingDirectory := by
  unfold createDirAll
  split <;> rfl

theorem written_createDirAll : (disk.createDirAll path).2.written = disk.written := by
  unfold createDirAll
  split <;> rfl

/-- A second time it makes nothing. -/
theorem createDirAll_again (hfaults : disk'.faults = disk.faults)
    (hdir : disk'.workingDirectory = disk.workingDirectory)
    (h : Fills (disk.createDirAll path).2.tree disk'.tree) :
    (disk'.createDirAll path).2 = disk' ∧
      (disk'.createDirAll path).1.isOk = (disk.createDirAll path).1.isOk := by
  unfold createDirAll at h ⊢
  rw [hfaults, hdir]
  cases hfault : disk.faults.createDir path with
  | some fault => exact ⟨rfl, rfl⟩
  | none =>
      simp only [hfault] at h
      obtain ⟨hsame, hresult⟩ := makeDirs_again h
      refine ⟨?_, hresult⟩
      simp only [hsame]
      rw [← hfaults, ← hdir]

theorem createDirAll_put {contents : α}
    (h : Writable ((disk.createDirAll path).2.tree place)) :
    (((disk.createDirAll path).2.put place contents).createDirAll path).2 =
      (disk.createDirAll path).2.put place contents := by
  have hfills : Fills (disk.createDirAll path).2.tree
      ((disk.createDirAll path).2.put place contents).tree := fills_update h contents
  exact (@createDirAll_again α path disk ((disk.createDirAll path).2.put place contents)
    faults_createDirAll workingDirectory_createDirAll hfills).1

theorem Follows.refl (path : String) (disk : Disk α) : Follows path disk disk :=
  ⟨rfl, rfl, Fills.refl _, rfl⟩

/-- Another file, opened where `create_dir_all` has been before. -/
theorem Follows.fill {opened : Disk α} (h : Follows path disk disk')
    (hfaults : opened.faults = disk'.faults)
    (hdir : opened.workingDirectory = disk'.workingDirectory)
    (hfill : Fills (disk'.createDirAll path).2.tree opened.tree) : Follows path disk opened := by
  obtain ⟨hsame, hresult⟩ := createDirAll_again hfaults hdir hfill
  refine ⟨hfaults.trans h.faults, hdir.trans h.workingDirectory, ?_, hresult.trans h.result⟩
  rw [hsame]
  exact h.tree.trans hfill

theorem Follows.made (h : Follows path disk disk') :
    Follows path disk (disk'.createDirAll path).2 :=
  h.fill faults_createDirAll workingDirectory_createDirAll (Fills.refl _)

theorem Follows.put (h : Follows path disk disk') (contents : α)
    (hwritable : Writable ((disk'.createDirAll path).2.tree place)) :
    Follows path disk ((disk'.createDirAll path).2.put place contents) :=
  h.fill faults_createDirAll workingDirectory_createDirAll (fills_update hwritable contents)

theorem Follows.creates_iff (h : Follows path disk disk') :
    (disk'.createDirAll path).2.creates name = .ok place ↔
      (disk.createDirAll path).2.creates name = .ok place := by
  have hdir : (disk'.createDirAll path).2.workingDirectory =
      (disk.createDirAll path).2.workingDirectory := by
    rw [workingDirectory_createDirAll, workingDirectory_createDirAll, h.workingDirectory]
  rw [creates_eq_ok, creates_eq_ok, faults_createDirAll, faults_createDirAll, h.faults,
    leads_fills hdir h.tree, (h.tree place).writable_iff]

/-- Where a path through the made directories leads. -/
theorem createDirAll_leads (h : (disk.createDirAll path).1.isOk = true) :
    ∃ folder left, ∀ rest, resolve (disk.createDirAll path).2.tree MAX_LINKS
      (start disk.workingDirectory path.toList) (components path.toList ++ rest) =
        resolve (disk.createDirAll path).2.tree left folder rest := by
  unfold createDirAll at h ⊢
  cases hfault : disk.faults.createDir path with
  | some fault =>
      simp only [hfault] at h
      cases h
  | none =>
      simp only [hfault] at h ⊢
      exact makeDirs_leads h (Fills.refl _).keeps

end Disk

end CkbSail.RustStd.Fs
