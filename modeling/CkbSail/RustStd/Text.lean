import CkbSail.RustStd.Number
import Mathlib.Data.List.TakeWhile

/-!
# Text as characters

The functions of `str` the textual observers use, on the characters of a text.
-/

namespace CkbSail.RustStd

/-- `char::is_whitespace`: the Unicode property White_Space. -/
def isWhitespace (c : Char) : Bool :=
  let code := c.toNat
  (9 ≤ code && code ≤ 13) || code = 0x20 || code = 0x85 || code = 0xa0 || code = 0x1680 ||
    (0x2000 ≤ code && code ≤ 0x200a) || code = 0x2028 || code = 0x2029 || code = 0x202f ||
    code = 0x205f || code = 0x3000

/-- `str::split_inclusive`. -/
def splitInclusive (separator : Char) : List Char → List (List Char)
  | [] => []
  | c :: cs =>
      if c = separator then [c] :: splitInclusive separator cs
      else
        match splitInclusive separator cs with
        | [] => [[c]]
        | line :: rest => (c :: line) :: rest

/-- `str::strip_suffix`, of one character. -/
def stripSuffix (suffix : Char) (text : List Char) : Option (List Char) :=
  if text.getLast? = some suffix then some text.dropLast else none

/-- A line without its ending, which is a line feed or a carriage return before one. -/
def withoutEnding (line : List Char) : List Char :=
  match stripSuffix '\n' line with
  | none => line
  | some line => (stripSuffix '\r' line).getD line

/-- `str::lines`. -/
def lines (text : List Char) : List (List Char) := (splitInclusive '\n' text).map withoutEnding

def trimStart (text : List Char) : List Char := text.dropWhile isWhitespace

/-- `str::trim`. -/
def trim (text : List Char) : List Char := (trimStart (trimStart text).reverse).reverse

/-- `str::split_once`. -/
def splitOnce (separator : Char) : List Char → Option (List Char × List Char)
  | [] => none
  | c :: cs =>
      if c = separator then some ([], cs)
      else (splitOnce separator cs).map fun parts => (c :: parts.1, parts.2)

/-- `split_whitespace().next()`. -/
def firstToken (text : List Char) : Option (List Char) :=
  match (trimStart text).takeWhile fun c => !isWhitespace c with
  | [] => none
  | token => some token

/-- `str::strip_prefix`. -/
def stripPrefix (start text : List Char) : Option (List Char) :=
  if start.isPrefixOf text then some (text.drop start.length) else none

/-- `str::len`: the bytes of the UTF-8 encoding. -/
def byteLen (text : List Char) : Nat := (text.map Char.utf8Size).sum

/-- `&text[n..]`, which panics inside a character and beyond the end. -/
def sliceFrom : Nat → List Char → Except Fault (List Char)
  | 0, text => .ok text
  | _ + 1, [] => .error .panic
  | n + 1, c :: cs =>
      if c.utf8Size ≤ n + 1 then sliceFrom (n + 1 - c.utf8Size) cs else .error .panic

/-- `&text[..n]`, which panics inside a character and beyond the end. -/
def sliceTo : Nat → List Char → Except Fault (List Char)
  | 0, _ => .ok []
  | _ + 1, [] => .error .panic
  | n + 1, c :: cs =>
      if c.utf8Size ≤ n + 1 then
        match sliceTo (n + 1 - c.utf8Size) cs with
        | .error fault => .error fault
        | .ok start => .ok (c :: start)
      else .error .panic

/-- `&text[start..stop]`. -/
def slice (start stop : Nat) (text : List Char) : Except Fault (List Char) :=
  match sliceFrom start text with
  | .error fault => .error fault
  | .ok rest => sliceTo (stop - start) rest

/-- `str::is_char_boundary`: the first `n` bytes are whole characters. -/
def IsCharBoundary (n : Nat) (text : List Char) : Prop :=
  ∃ k ≤ text.length, byteLen (text.take k) = n

/-! ## Lines -/

theorem splitInclusive_line {line : List Char} (h : '\n' ∉ line) (rest : List Char) :
    splitInclusive '\n' (line ++ '\n' :: rest) =
      (line ++ ['\n']) :: splitInclusive '\n' rest := by
  induction line with
  | nil => simp [splitInclusive]
  | cons c cs ih =>
      have hc : c ≠ '\n' := fun heq => h (heq ▸ List.mem_cons_self)
      have hcs : '\n' ∉ cs := fun hmem => h (List.mem_cons_of_mem _ hmem)
      rw [List.cons_append, splitInclusive, if_neg hc, ih hcs]
      rfl

theorem lines_line {line : List Char} (hfeed : '\n' ∉ line) (hreturn : '\r' ∉ line)
    (rest : List Char) : lines (line ++ '\n' :: rest) = line :: lines rest := by
  have hend : line.getLast? ≠ some '\r' := fun h => hreturn (List.mem_of_getLast? h)
  have hline : withoutEnding (line ++ ['\n']) = line := by
    simp [withoutEnding, stripSuffix, hend]
  rw [lines, splitInclusive_line hfeed, List.map_cons, hline]
  rfl

/-! ## Trimming -/

theorem trimStart_of_head {c : Char} {cs : List Char} (h : isWhitespace c = false) :
    trimStart (c :: cs) = c :: cs := by
  rw [trimStart, List.dropWhile_cons_of_neg (by simp [h])]

theorem trim_of_ends {first last : Char} {middle : List Char} (hfirst : isWhitespace first = false)
    (hlast : isWhitespace last = false) :
    trim (first :: (middle ++ [last])) = first :: (middle ++ [last]) := by
  have hreverse : (first :: (middle ++ [last])).reverse = last :: (first :: middle).reverse := by
    simp
  rw [trim, trimStart_of_head hfirst, hreverse, trimStart_of_head hlast, ← hreverse,
    List.reverse_reverse]

theorem splitOnce_append {separator : Char} {left : List Char} (h : separator ∉ left)
    (right : List Char) :
    splitOnce separator (left ++ separator :: right) = some (left, right) := by
  induction left with
  | nil => simp [splitOnce]
  | cons c cs ih =>
      have hc : c ≠ separator := fun heq => h (heq ▸ List.mem_cons_self)
      have hcs : separator ∉ cs := fun hmem => h (List.mem_cons_of_mem _ hmem)
      rw [List.cons_append, splitOnce, if_neg hc, ih hcs]
      rfl

theorem firstToken_of_blank {token : List Char} (hne : token ≠ [])
    (h : ∀ c ∈ token, isWhitespace c = false) : firstToken (' ' :: token) = some token := by
  have hstart : trimStart (' ' :: token) = token := by
    cases token with
    | nil => exact absurd rfl hne
    | cons c cs =>
        have hc := h c List.mem_cons_self
        rw [trimStart, List.dropWhile_cons_of_pos (by decide)]
        exact trimStart_of_head hc
  have htoken : token.takeWhile (fun c => !isWhitespace c) = token :=
    List.takeWhile_eq_self_iff.2 fun c hc => by simp [h c hc]
  unfold firstToken
  rw [hstart, htoken]
  cases token with
  | nil => exact absurd rfl hne
  | cons c cs => rfl

/-! ## Texts of single bytes -/

theorem byteLen_of_ascii {text : List Char} (h : ∀ c ∈ text, c.utf8Size = 1) :
    byteLen text = text.length := by
  rw [byteLen, List.map_congr_left h, List.map_const', List.sum_replicate_nat, Nat.mul_one]

theorem sliceFrom_of_ascii {text : List Char} (h : ∀ c ∈ text, c.utf8Size = 1) {n : Nat}
    (hn : n ≤ text.length) : sliceFrom n text = .ok (text.drop n) := by
  induction text generalizing n with
  | nil =>
      obtain rfl : n = 0 := by simpa using hn
      rfl
  | cons c cs ih =>
      cases n with
      | zero => rfl
      | succ n =>
          rw [sliceFrom, h c List.mem_cons_self, if_pos (by omega), Nat.add_sub_cancel,
            List.drop_succ_cons]
          exact ih (fun d hd => h d (List.mem_cons_of_mem _ hd)) (by simpa using hn)

/-! ## Slices -/

theorem byteLen_cons (c : Char) (cs : List Char) : byteLen (c :: cs) = c.utf8Size + byteLen cs :=
  rfl

theorem byteLen_append (left right : List Char) :
    byteLen (left ++ right) = byteLen left + byteLen right := by
  rw [byteLen, List.map_append, List.sum_append]
  rfl

theorem isCharBoundary_zero (text : List Char) : IsCharBoundary 0 text := ⟨0, by omega, rfl⟩

theorem isCharBoundary_cons {n : Nat} (hn : n ≠ 0) (c : Char) (cs : List Char) :
    IsCharBoundary n (c :: cs) ↔ c.utf8Size ≤ n ∧ IsCharBoundary (n - c.utf8Size) cs := by
  constructor
  · rintro ⟨k, hk, hlen⟩
    cases k with
    | zero => exact absurd hlen.symm hn
    | succ k =>
        rw [List.take_succ_cons, byteLen_cons] at hlen
        exact ⟨by omega, k, by simpa using hk, by omega⟩
  · rintro ⟨hle, k, hk, hlen⟩
    exact ⟨k + 1, by simpa using hk, by rw [List.take_succ_cons, byteLen_cons]; omega⟩

theorem sliceFrom_append (left right : List Char) :
    sliceFrom (byteLen left) (left ++ right) = .ok right := by
  induction left with
  | nil =>
      show sliceFrom 0 right = .ok right
      unfold sliceFrom
      rfl
  | cons c cs ih =>
      have hpos := c.utf8Size_pos
      obtain ⟨n, hn⟩ : ∃ n, byteLen (c :: cs) = n + 1 := ⟨byteLen (c :: cs) - 1, by
        rw [byteLen_cons]
        omega⟩
      rw [hn, List.cons_append, sliceFrom, ← hn, byteLen_cons, if_pos (by omega),
        Nat.add_sub_cancel_left]
      exact ih

theorem sliceTo_append (left right : List Char) :
    sliceTo (byteLen left) (left ++ right) = .ok left := by
  induction left with
  | nil =>
      show sliceTo 0 right = .ok []
      unfold sliceTo
      rfl
  | cons c cs ih =>
      have hpos := c.utf8Size_pos
      obtain ⟨n, hn⟩ : ∃ n, byteLen (c :: cs) = n + 1 := ⟨byteLen (c :: cs) - 1, by
        rw [byteLen_cons]
        omega⟩
      rw [hn, List.cons_append, sliceTo, ← hn, byteLen_cons, if_pos (by omega),
        Nat.add_sub_cancel_left, ih]

theorem sliceTo_of_not_boundary {n : Nat} {text : List Char} (h : ¬IsCharBoundary n text) :
    sliceTo n text = .error .panic := by
  induction text generalizing n with
  | nil =>
      cases n with
      | zero => exact absurd (isCharBoundary_zero []) h
      | succ n => rfl
  | cons c cs ih =>
      cases n with
      | zero => exact absurd (isCharBoundary_zero _) h
      | succ n =>
          rw [isCharBoundary_cons (Nat.succ_ne_zero n), not_and] at h
          rw [sliceTo]
          split_ifs with hle
          · rw [ih (h hle)]
          · rfl

theorem sliceFrom_of_not_boundary {n : Nat} {text : List Char} (h : ¬IsCharBoundary n text) :
    sliceFrom n text = .error .panic := by
  induction text generalizing n with
  | nil =>
      cases n with
      | zero => exact absurd (isCharBoundary_zero []) h
      | succ n => rfl
  | cons c cs ih =>
      cases n with
      | zero => exact absurd (isCharBoundary_zero _) h
      | succ n =>
          rw [isCharBoundary_cons (Nat.succ_ne_zero n), not_and] at h
          rw [sliceFrom]
          split_ifs with hle
          · exact ih (h hle)
          · rfl

theorem sliceTo_of_boundary {n : Nat} {text : List Char} (h : IsCharBoundary n text) :
    ∃ left right, text = left ++ right ∧ byteLen left = n ∧ sliceTo n text = .ok left := by
  obtain ⟨k, -, hlen⟩ := h
  refine ⟨text.take k, text.drop k, (List.take_append_drop k text).symm, hlen, ?_⟩
  have hslice := sliceTo_append (text.take k) (text.drop k)
  rwa [List.take_append_drop, hlen] at hslice

theorem eq_nil_of_byteLen {text : List Char} (h : byteLen text = 0) : text = [] := by
  cases text with
  | nil => rfl
  | cons c cs =>
      have hpos := c.utf8Size_pos
      rw [byteLen_cons] at h
      omega

section LowerHex

variable {c : Char} (h : IsLowerHex c)
include h

theorem IsLowerHex.code : (48 ≤ c.toNat ∧ c.toNat ≤ 57) ∨ (97 ≤ c.toNat ∧ c.toNat ≤ 102) := by
  rcases h with ⟨hlow, hhigh⟩ | ⟨hlow, hhigh⟩
  · exact Or.inl ⟨hlow, hhigh⟩
  · exact Or.inr ⟨hlow, hhigh⟩

theorem IsLowerHex.not_whitespace : isWhitespace c = false := by
  have hcode := h.code
  simp only [isWhitespace, Bool.or_eq_false_iff, Bool.and_eq_false_iff, decide_eq_false_iff_not]
  omega

theorem IsLowerHex.utf8Size_eq : c.utf8Size = 1 := by
  have hcode := h.code
  rw [Char.utf8Size_eq_one_iff, UInt32.le_iff_toNat_le]
  exact (by omega : c.toNat ≤ 127)

end LowerHex

section Search

variable {α : Type} {word left right : List α} {c : α}

/-- No occurrence of a word crosses an item it does not have. -/
theorem infix_append_cons_iff (hc : c ∉ word) (hne : word ≠ []) :
    word <:+: left ++ c :: right ↔ word <:+: left ∨ word <:+: right := by
  have hcut : ∀ rest, rest <+: c :: right → c ∉ rest → rest = [] := by
    intro rest hrest hnot
    rcases List.prefix_cons_iff.1 hrest with hnil | ⟨tail, rfl, -⟩
    · exact hnil
    · exact absurd List.mem_cons_self hnot
  constructor
  · intro h
    rcases List.infix_append_iff.1 h with hleft | hright | ⟨front, rest, rfl, hfront, hrest⟩
    · exact Or.inl hleft
    · rcases List.infix_cons_iff.1 hright with hhead | hright
      · exact absurd (hcut word hhead hc) hne
      · exact Or.inr hright
    · obtain rfl : rest = [] := hcut rest hrest fun hmem => hc (List.mem_append_right _ hmem)
      rw [List.append_nil]
      exact Or.inl hfront.isInfix
  · rintro (hleft | hright)
    · exact hleft.trans (List.infix_append' [] left _)
    · exact (List.infix_cons hright).trans (List.suffix_append left _).isInfix

end Search

end CkbSail.RustStd
