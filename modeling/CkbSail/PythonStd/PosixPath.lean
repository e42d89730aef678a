import CkbSail.PythonStd.PurePath

/-!
# `posixpath` on text

`normpath` removes `.` and the component before every `..` without a look at any
directory.
-/

namespace CkbSail.PythonStd

/-- `name.startswith("/")`, once, twice or more often. -/
def initialSlashes (name : String) : Nat :=
  match name.toList with
  | '/' :: '/' :: '/' :: _ => 1
  | '/' :: '/' :: _ => 2
  | '/' :: _ => 1
  | _ => 0

/-- What `normpath` makes of one more component. -/
def pushComponent (rooted : Bool) (components : Path) (component : String) : Path :=
  if component = "" || component = "." then components
  else if component ≠ ".." || (!rooted && components.isEmpty) ||
      components.getLast? = some ".." then
    components ++ [component]
  else components.dropLast

/-- `posixpath.normpath(name)`. -/
def normpath (name : String) : String :=
  let slashes := initialSlashes name
  let components := (split name).foldl (pushComponent (slashes ≠ 0)) []
  let text := String.ofList (List.replicate slashes '/' ++ (join components).toList)
  if text = "" then "." else text

/-- `posixpath.join(start, name)`. -/
def posixJoin (start name : String) : String :=
  if isAbsolute name then name
  else if start = "" || start.toList.getLast? = some '/' then start ++ name
  else start ++ "/" ++ name

/-- `posixpath.dirname(name)`. -/
def dirname (name : String) : String :=
  let head := (name.toList.reverse.dropWhile (· ≠ '/')).reverse
  if head.all (· = '/') then String.ofList head else rstripSlash (String.ofList head)

/-- A component that leads down. -/
def Ordinary (part : String) : Prop := part ∉ ["", ".", ".."]

theorem pushComponent_ordinary {components : Path} {part : String} (h : Ordinary part) :
    pushComponent false components part = components ++ [part] := by
  simp only [Ordinary, List.mem_cons, List.not_mem_nil, or_false, not_or] at h
  simp [pushComponent, h.1, h.2.1, h.2.2]

theorem pushComponent_up {components : Path} (hne : components ≠ [])
    (h : ∀ part ∈ components, Ordinary part) :
    pushComponent false components ".." = components.dropLast := by
  have hlast : components.getLast? ≠ some ".." := by
    intro hlast
    exact h ".." (List.mem_of_getLast? hlast) (by decide)
  simp [pushComponent, hne, hlast]

theorem foldl_pushComponent_ordinary {path : Path} (h : ∀ part ∈ path, Ordinary part)
    (components : Path) : path.foldl (pushComponent false) components = components ++ path := by
  induction path generalizing components with
  | nil => simp
  | cons part path ih =>
      rw [List.foldl_cons, pushComponent_ordinary (h part List.mem_cons_self),
        ih (fun part hpart => h part (List.mem_cons_of_mem _ hpart)), List.append_assoc]
      rfl

/-- Components without a slash stay so. -/
theorem slash_notMem_pushComponent {components : Path} {component : String}
    (h : ∀ part ∈ components, '/' ∉ part.toList) (hcomponent : '/' ∉ component.toList) :
    ∀ part ∈ pushComponent false components component, '/' ∉ part.toList := by
  intro part hpart
  unfold pushComponent at hpart
  split at hpart
  · exact h part hpart
  · split at hpart
    · rcases List.mem_append.1 hpart with hold | hnew
      · exact h part hold
      · rwa [List.mem_singleton.1 hnew]
    · exact h part (List.mem_of_mem_dropLast hpart)

theorem slash_notMem_foldl_pushComponent {path components : Path}
    (h : ∀ part ∈ components, '/' ∉ part.toList) (hpath : ∀ part ∈ path, '/' ∉ part.toList) :
    ∀ part ∈ path.foldl (pushComponent false) components, '/' ∉ part.toList := by
  induction path generalizing components with
  | nil => exact h
  | cons component path ih =>
      exact ih (slash_notMem_pushComponent h (hpath component List.mem_cons_self))
        fun part hpart => hpath part (List.mem_cons_of_mem _ hpart)

theorem split_append_slash (start name : String) :
    split (start ++ "/" ++ name) = split start ++ split name := by
  simp only [split, String.toList_append]
  rw [show ("/" : String).toList = ['/'] from rfl, List.append_assoc, List.singleton_append,
    List.splitOn_append_cons_self, List.map_append]

theorem split_eq_singleton {part : String} (h : '/' ∉ part.toList) : split part = [part] := by
  rw [split, List.splitOn_eq_singleton h, List.map_singleton, String.ofList_toList]

theorem join_append_singleton {front : Path} {last : String} (hne : front ≠ [])
    (hfront : ∀ part ∈ front, '/' ∉ part.toList) (hlast : '/' ∉ last.toList) :
    join (front ++ [last]) = join front ++ "/" ++ last := by
  apply split_injective
  rw [split_append_slash, split_join hne hfront, split_eq_singleton hlast, split_join]
  · simp
  · intro part hpart
    rcases List.mem_append.1 hpart with hold | hnew
    · exact hfront part hold
    · rwa [List.mem_singleton.1 hnew]

/-! ## Relative names -/

/-- A path of ordinary components. -/
structure Plain (path : Path) : Prop where
  ordinary : ∀ part ∈ path, Ordinary part
  slash : ∀ part ∈ path, '/' ∉ part.toList

theorem Plain.sublist {path path' : Path} (h : Plain path) (hsub : ∀ part ∈ path', part ∈ path) :
    Plain path' :=
  ⟨fun part hpart => h.ordinary part (hsub part hpart), fun part hpart =>
    h.slash part (hsub part hpart)⟩

theorem Plain.dropLast {path : Path} (h : Plain path) : Plain path.dropLast :=
  h.sublist fun _ => List.mem_of_mem_dropLast

/-- The last character of a plain path belongs to its last component. -/
theorem Plain.exists_last {path : Path} (h : Plain path) (hne : path ≠ []) :
    ∃ chars c, (join path).toList = chars ++ [c] ∧ c ≠ '/' := by
  obtain ⟨front, last, rfl⟩ := (List.eq_nil_or_concat' path).resolve_left hne
  have hlast : last ∈ front ++ [last] := by simp
  have hempty : last ≠ "" := by
    rintro rfl
    exact h.ordinary "" hlast (by decide)
  obtain ⟨chars, c, hchars⟩ : ∃ chars c, last.toList = chars ++ [c] := by
    rcases List.eq_nil_or_concat' last.toList with hnil | ⟨chars, c, hchars⟩
    · exact absurd (String.toList_injective hnil) hempty
    · exact ⟨chars, c, hchars⟩
  have hc : c ≠ '/' := by
    rintro rfl
    exact h.slash last hlast (by simp [hchars])
  by_cases hfront : front = []
  · refine ⟨chars, c, ?_, hc⟩
    rw [hfront, ← hchars]
    simp [join]
  · refine ⟨(join front).toList ++ '/' :: chars, c, ?_, hc⟩
    rw [join_append_singleton hfront (fun part hpart => h.slash part (by simp [hpart]))
      (h.slash last hlast), String.toList_append, String.toList_append, hchars]
    simp

theorem Plain.isAbsolute_join {path : Path} (h : Plain path) : isAbsolute (join path) = false := by
  rw [isAbsolute, decide_eq_false_iff_not]
  cases path with
  | nil => simp [join]
  | cons part path =>
      intro hhead
      have hpart : part.toList ≠ [] := by
        intro hnil
        refine h.ordinary part List.mem_cons_self ?_
        rw [String.toList_injective (hnil.trans String.toList_empty.symm)]
        decide
      obtain ⟨c, cs, hc⟩ := List.exists_cons_of_ne_nil hpart
      have hslash : c ≠ '/' := by
        rintro rfl
        exact h.slash part List.mem_cons_self (by simp [hc])
      cases path <;> simp [join, hc, hslash] at hhead

theorem dirname_join {path : Path} (h : Plain path) (hne : path ≠ []) :
    dirname (join path) = join path.dropLast := by
  obtain ⟨front, last, rfl⟩ := (List.eq_nil_or_concat' path).resolve_left hne
  have hlast : '/' ∉ last.toList := h.slash last (by simp)
  have hfront : Plain front := h.sublist fun part hpart => by simp [hpart]
  have hdrop : ∀ rest : List Char, (∀ c ∈ rest.head?, c = '/') →
      (last.toList.reverse ++ rest).dropWhile (· ≠ '/') = rest := by
    intro rest hrest
    rw [List.dropWhile_append_of_pos]
    · cases rest with
      | nil => rfl
      | cons c cs => simp [hrest c rfl]
    · intro c hc
      simpa using fun heq : c = '/' => hlast (by rw [← heq]; simpa using hc)
  rw [List.dropLast_concat]
  by_cases hempty : front = []
  · have hhead := hdrop [] (by simp)
    rw [List.append_nil] at hhead
    have hjoin : join (front ++ [last]) = last := by simp [hempty, join]
    rw [dirname, hjoin, hhead, hempty]
    rfl
  · obtain ⟨chars, c, hchars, hc⟩ := hfront.exists_last hempty
    have hhead : ((join (front ++ [last])).toList.reverse.dropWhile (· ≠ '/')).reverse =
        chars ++ [c, '/'] := by
      rw [join_append_singleton hempty hfront.slash hlast]
      have hreverse : (join front ++ "/" ++ last).toList.reverse =
          last.toList.reverse ++ '/' :: c :: chars.reverse := by
        simp [String.toList_append, hchars]
      rw [hreverse, hdrop _ (by simp)]
      simp
    rw [dirname, hhead, if_neg (by simp [hc])]
    apply String.toList_injective
    rw [rstripSlash, String.toList_ofList, String.toList_ofList, hchars]
    simp [hc]

theorem isAbsolute_append {start name : String} (h : isAbsolute start = false) (hne : start ≠ "") :
    isAbsolute (start ++ name) = false := by
  rw [isAbsolute, decide_eq_false_iff_not] at h ⊢
  rw [String.toList_append]
  cases hstart : start.toList with
  | nil => exact absurd (String.toList_injective hstart) hne
  | cons c cs => simpa [hstart] using h

theorem normpath_relative {name : String} (h : isAbsolute name = false) :
    normpath name =
      if join ((split name).foldl (pushComponent false) []) = "" then "."
      else join ((split name).foldl (pushComponent false) []) := by
  have hslashes : initialSlashes name = 0 := by
    rw [isAbsolute, decide_eq_false_iff_not] at h
    rw [initialSlashes]
    split <;> simp_all
  simp [normpath, hslashes]

/-- Where a link at `path` leads when only the text of its target is looked at. -/
def lexicalTarget (path : Path) (target : String) : Path :=
  (split target).foldl (pushComponent false) path.dropLast

theorem normpath_join_dirname {path : Path} (h : Plain path) (hne : path ≠ []) {target : String}
    (htarget : isAbsolute target = false) :
    normpath (posixJoin (dirname (join path)) target) =
      if join (lexicalTarget path target) = "" then "." else join (lexicalTarget path target) := by
  have hjoin : isAbsolute (posixJoin (join path.dropLast) target) = false ∧
      (split (posixJoin (join path.dropLast) target)).foldl (pushComponent false) [] =
        lexicalTarget path target := by
    by_cases hempty : path.dropLast = []
    · have hposix : posixJoin (join path.dropLast) target = target := by
        simp [posixJoin, htarget, hempty, join]
      rw [hposix, lexicalTarget, hempty]
      exact ⟨htarget, rfl⟩
    · obtain ⟨chars, c, hchars, hc⟩ := h.dropLast.exists_last hempty
      have hstart : join path.dropLast ≠ "" := by
        intro hnil
        simp [hnil] at hchars
      have hposix : posixJoin (join path.dropLast) target =
          join path.dropLast ++ "/" ++ target := by
        simp [posixJoin, htarget, hstart, hchars, hc]
      rw [hposix]
      constructor
      · rw [String.append_assoc]
        exact isAbsolute_append h.dropLast.isAbsolute_join hstart
      · rw [split_append_slash, split_join hempty h.dropLast.slash, List.foldl_append,
          foldl_pushComponent_ordinary h.dropLast.ordinary, List.nil_append, lexicalTarget]
  rw [dirname_join h hne, normpath_relative hjoin.1, hjoin.2]

end CkbSail.PythonStd
