import CkbSail.DiffTest.Proofs.Encode

/-!
# Constants built in a register

Executing the words of `materialize` leaves its value in the register and every
other register as it was, from any state.
-/

namespace CkbSail.DiffTest.Encode

open RustStd ProofSupport Rv64i

/-- One chunk shifted in. -/
def shiftIn (value chunk : UInt64) : UInt64 := (value <<< 11) + chunk

/-! ## The chunks -/

theorem chunk_lt {value chunk : UInt64} (h : chunk ∈ chunks value) : chunk.toNat < 2 ^ 11 := by
  have hmask : ∀ (bits : UInt64) (mask : UInt64), mask.toNat < 2 ^ 11 →
      (bits &&& mask).toNat < 2 ^ 11 := by
    intro bits mask hlt
    rw [UInt64.toNat_and]
    exact Nat.lt_of_le_of_lt Nat.and_le_right hlt
  simp only [chunks, List.mem_cons, List.not_mem_nil, or_false] at h
  rcases h with rfl | rfl | rfl | rfl | rfl | rfl <;> exact hmask _ _ (by decide)

/-- The chunk at bit `k` brings the bits from `k + 11` up to the bits from `k` up. -/
theorem shiftIn_chunk {value high : UInt64} (k : UInt64) (n : Nat) (hk : k.toNat = n) (hn : n < 53)
    (hhigh : high.toNat = value.toNat / 2 ^ (n + 11)) :
    (shiftIn high ((value >>> k) &&& 0x7ff)).toNat = value.toNat / 2 ^ n := by
  have hchunk : ((value >>> k) &&& 0x7ff).toNat = value.toNat / 2 ^ n % 2 ^ 11 := by
    rw [UInt64.toNat_and, UInt64.toNat_shiftRight, hk, Nat.mod_eq_of_lt (by omega),
      Nat.shiftRight_eq_div_pow]
    exact Nat.and_two_pow_sub_one_eq_mod _ 11
  have hdigits : value.toNat / 2 ^ (n + 11) * 2 ^ 11 + value.toNat / 2 ^ n % 2 ^ 11 =
      value.toNat / 2 ^ n := by
    rw [Nat.pow_add, ← Nat.div_div_eq_div_mul, Nat.mul_comm, Nat.div_add_mod]
  have hlt : value.toNat / 2 ^ n < 2 ^ 64 :=
    Nat.lt_of_le_of_lt (Nat.div_le_self _ _) value.toNat_lt
  have hshift : value.toNat / 2 ^ (n + 11) * 2 ^ 11 < 2 ^ 64 := by omega
  have heleven : (11 : UInt64).toNat % 64 = 11 := rfl
  rw [shiftIn, UInt64.toNat_add, UInt64.toNat_shiftLeft, heleven, Nat.shiftLeft_eq, hhigh, hchunk,
    Nat.mod_eq_of_lt hshift, hdigits, Nat.mod_eq_of_lt hlt]

/-- The chunks are the digits of the value, from the head down. -/
theorem foldl_shiftIn_chunks (value : UInt64) : (chunks value).foldl shiftIn 0 = value := by
  have hhead : (shiftIn 0 ((value >>> 55) &&& 0x1ff)).toNat = value.toNat / 2 ^ (44 + 11) := by
    have hlt := value.toNat_lt
    have hbits : value.toNat / 2 ^ 55 < 2 ^ 9 := by omega
    have hshift : (55 : UInt64).toNat % 64 = 55 := rfl
    have hmask : (0x1ff : UInt64).toNat = 2 ^ 9 - 1 := rfl
    rw [shiftIn, UInt64.zero_shiftLeft, UInt64.zero_add, UInt64.toNat_and,
      UInt64.toNat_shiftRight, hshift, hmask, Nat.and_two_pow_sub_one_eq_mod,
      Nat.shiftRight_eq_div_pow, Nat.mod_eq_of_lt hbits]
  have h44 := shiftIn_chunk 44 44 rfl (by omega) hhead
  have h33 := shiftIn_chunk 33 33 rfl (by omega) h44
  have h22 := shiftIn_chunk 22 22 rfl (by omega) h33
  have h11 := shiftIn_chunk 11 11 rfl (by omega) h22
  have h0 := shiftIn_chunk 0 0 rfl (by omega) h11
  apply UInt64.toNat_inj.1
  rw [Nat.pow_zero, Nat.div_one, UInt64.shiftRight_zero] at h0
  exact h0

/-- The chunks before the first one that is used are zero. -/
theorem firstChunk_split {chunks : List UInt64} (hne : chunks ≠ []) :
    ∃ zeros head rest, chunks = zeros ++ head :: rest ∧ (∀ zero ∈ zeros, zero = 0) ∧
      firstChunk chunks = zeros.length := by
  rw [firstChunk]
  cases hfind : chunks.findIdx? fun chunk => chunk ≠ 0 with
  | none =>
      rw [List.findIdx?_eq_none_iff] at hfind
      have hzero : ∀ chunk ∈ chunks, chunk = 0 := by simpa using hfind
      refine ⟨chunks.dropLast, chunks.getLast hne, [], ?_, ?_, ?_⟩
      · exact (List.dropLast_append_getLast hne).symm
      · exact fun zero hmem => hzero zero (List.dropLast_subset chunks hmem)
      · rw [Option.getD_none, List.length_dropLast]
  | some first =>
      obtain ⟨hlt, -, hbefore⟩ := List.findIdx?_eq_some_iff_getElem.1 hfind
      refine ⟨chunks.take first, chunks[first], chunks.drop (first + 1), ?_, ?_, ?_⟩
      · rw [List.getElem_cons_drop, List.take_append_drop]
      · intro zero hmem
        obtain ⟨k, hk, rfl⟩ := List.mem_take_iff_getElem.1 hmem
        simpa using hbefore k (by omega)
      · rw [Option.getD_some, List.length_take, Nat.min_eq_left (Nat.le_of_lt hlt)]

theorem foldl_shiftIn_zeros {zeros : List UInt64} (h : ∀ zero ∈ zeros, zero = 0) :
    zeros.foldl shiftIn 0 = 0 := by
  induction zeros with
  | nil => rfl
  | cons zero zeros ih =>
      obtain rfl : zero = 0 := h zero List.mem_cons_self
      exact ih fun z hz => h z (List.mem_cons_of_mem _ hz)

/-! ## The words -/

theorem toInt_chunkImmediate {chunk : UInt64} (h : chunk.toNat < 2 ^ 11) :
    (chunkImmediate chunk).toInt = chunk.toNat := by
  have hnat : chunk.toUInt32.toBitVec.toNat = chunk.toNat := by
    show chunk.toUInt32.toNat = chunk.toNat
    rw [UInt64.toNat_toUInt32, Nat.mod_eq_of_lt (by omega)]
  have hcond := BitVec.toInt_eq_toNat_cond chunk.toUInt32.toBitVec
  rw [hnat, if_pos (by omega)] at hcond
  exact hcond

/-- A chunk is a non-negative immediate. -/
theorem chunkImmediate_fits {chunk : UInt64} (h : chunk.toNat < 2 ^ 11) :
    -2048 ≤ chunkImmediate chunk ∧ chunkImmediate chunk ≤ 2047 := by
  have hvalue := toInt_chunkImmediate h
  have hlow : (-2048 : Int32).toInt = -2048 := rfl
  have hhigh : (2047 : Int32).toInt = 2047 := rfl
  rw [Int32.le_iff_toInt_le, Int32.le_iff_toInt_le, hvalue, hlow, hhigh]
  omega

theorem extend_chunk {chunk : UInt64} (h : chunk.toNat < 2 ^ 11) :
    extend (immediateField (chunkImmediate chunk)) = chunk := by
  have hfield : immediateField (chunkImmediate chunk) = BitVec.ofNat 12 chunk.toNat := by
    rw [immediateField, toInt_chunkImmediate h, BitVec.ofInt_natCast]
  have hmsb : (BitVec.ofNat 12 chunk.toNat).msb = false := by
    rw [BitVec.msb_eq_false_iff_two_mul_lt, BitVec.toNat_ofNat]
    omega
  rw [hfield, extend, BitVec.signExtend_eq_setWidth_of_msb_false hmsb, ← UInt64.toNat_inj]
  show ((BitVec.ofNat 12 chunk.toNat).setWidth 64).toNat = chunk.toNat
  rw [BitVec.toNat_setWidth, BitVec.toNat_ofNat]
  omega

/-! ## Execution -/

/-- Straight-line words that leave `operands` in their registers and change no other. -/
structure Builds (operands : List (Reg × UInt64)) (words : List UInt32) : Prop where
  sequential : ∀ word ∈ words, Sequential word
  run : ∀ s, ∃ s', Rv64i.run s words = some s' ∧ (∀ o ∈ operands, s'.x o.1 = o.2) ∧
    ∀ r ∉ operands.map Prod.fst, s'.x r = s.x r

theorem Builds.append {first second : List (Reg × UInt64)} {xs ys : List UInt32}
    (hxs : Builds first xs) (hys : Builds second ys)
    (hdisjoint : ∀ o ∈ first, o.1 ∉ second.map Prod.fst) : Builds (first ++ second) (xs ++ ys) where
  sequential := by
    intro word hword
    rcases List.mem_append.1 hword with hx | hy
    · exact hxs.sequential word hx
    · exact hys.sequential word hy
  run := by
    intro s
    obtain ⟨middle, hmiddle, hfirst, hframe⟩ := hxs.run s
    obtain ⟨s', hrun, hsecond, hframe'⟩ := hys.run middle
    refine ⟨s', by rw [run_append hmiddle, hrun], ?_, ?_⟩
    · intro o ho
      rcases List.mem_append.1 ho with ho | ho
      · rw [hframe' _ (hdisjoint o ho), hfirst o ho]
      · exact hsecond o ho
    · intro r hr
      rw [List.map_append, List.mem_append, not_or] at hr
      rw [hframe' r hr.2, hframe r hr.1]

/-- The words of ADDI and SLLI. -/
def AddsOrShifts (word : UInt32) : Prop :=
  ∃ o d a immediate, decode word = some (.opImm o d a immediate) ∧ (o = .add ∨ o = .sll)

theorem AddsOrShifts.sequential {word : UInt32} (h : AddsOrShifts word) : Sequential word := by
  obtain ⟨o, d, a, immediate, hdecode, -⟩ := h
  exact ⟨_, hdecode, rfl⟩

theorem sequential_opImm {word : UInt32} {o : Operation} {d a : Reg} {immediate : BitVec 12}
    (h : decode word = some (.opImm o d a immediate)) : Sequential word := ⟨_, h, rfl⟩

variable {rd : UInt8}

theorem reg_ne_zero (hrd : rd < 32) (hne : rd ≠ 0) : reg rd ≠ 0 := by
  intro h
  have hzero : (reg rd).toNat = 0 := by rw [h]; rfl
  rw [← toNat_register hrd, UInt8.toNat_toUInt32] at hzero
  exact hne (UInt8.toNat_inj.1 hzero)

/-- The words of one chunk, wherever they are put. -/
theorem pushChunk_spec (hrd : rd < 32) (hne : rd ≠ 0) {chunk : UInt64}
    (hchunk : chunk.toNat < 2 ^ 11) :
    ∃ shift add, (∀ program, pushChunk rd program chunk = .ok (program ++ [shift, add])) ∧
      AddsOrShifts shift ∧ AddsOrShifts add ∧
      ∀ s, ∃ s', Rv64i.run s [shift, add] = some s' ∧
        s'.x (reg rd) = shiftIn (s.x (reg rd)) chunk ∧ ∀ r, r ≠ reg rd → s'.x r = s.x r := by
  have hreg := reg_ne_zero hrd hne
  obtain ⟨shift, hshift, hdecode⟩ := slli_eq_ok hrd hrd (by decide : (11 : UInt32) < 64)
  obtain ⟨add, hadd, hdecode'⟩ := addi_eq_ok hrd hrd (chunkImmediate_fits hchunk)
  refine ⟨shift, add, ?_, ⟨_, _, _, _, hdecode, Or.inr rfl⟩, ⟨_, _, _, _, hdecode', Or.inl rfl⟩, ?_⟩
  · intro program
    rw [pushChunk, hshift, hadd]
    show Except.ok (program ++ [shift] ++ [add]) = _
    rw [List.append_assoc]
    rfl
  · intro s
    refine ⟨_, by rw [run_cons hdecode, run_cons hdecode']; rfl, ?_, ?_⟩
    · simp only [execute, State.x_setPc, State.x_write_self _ _ hreg, extend_chunk hchunk]
      rfl
    · intro r hr
      simp only [execute, State.x_setPc, State.x_write_of_ne _ _ hr]

theorem pushChunks_spec (hrd : rd < 32) (hne : rd ≠ 0) {chunks : List UInt64}
    (hchunks : ∀ chunk ∈ chunks, chunk.toNat < 2 ^ 11) :
    ∃ words, (∀ program, chunks.foldlM (pushChunk rd) program = .ok (program ++ words)) ∧
      words.length = 2 * chunks.length ∧ (∀ word ∈ words, AddsOrShifts word) ∧
      ∀ s, ∃ s', Rv64i.run s words = some s' ∧
        s'.x (reg rd) = chunks.foldl shiftIn (s.x (reg rd)) ∧ ∀ r, r ≠ reg rd → s'.x r = s.x r := by
  induction chunks with
  | nil =>
      exact ⟨[], fun program => by rw [List.append_nil]; rfl, rfl, by simp,
        fun s => ⟨s, rfl, rfl, fun _ _ => rfl⟩⟩
  | cons chunk chunks ih =>
      obtain ⟨shift, add, hpush, hshift, hadd, hrun⟩ :=
        pushChunk_spec hrd hne (hchunks chunk List.mem_cons_self)
      obtain ⟨words, hfold, hlength, hwords, hruns⟩ :=
        ih fun c hc => hchunks c (List.mem_cons_of_mem _ hc)
      refine ⟨[shift, add] ++ words, ?_, ?_, ?_, ?_⟩
      · intro program
        rw [List.foldlM_cons, hpush, ← List.append_assoc]
        exact hfold _
      · rw [List.length_append, hlength, List.length_cons]
        simp only [List.length_cons, List.length_nil]
        omega
      · intro word hword
        simp only [List.cons_append, List.nil_append, List.mem_cons] at hword
        rcases hword with rfl | rfl | hword
        · exact hshift
        · exact hadd
        · exact hwords word hword
      · intro s
        obtain ⟨middle, hmiddle, hvalue, hframe⟩ := hrun s
        obtain ⟨s', hs', hvalue', hframe'⟩ := hruns middle
        refine ⟨s', by rw [run_append hmiddle, hs'], ?_, ?_⟩
        · rw [hvalue', hvalue, List.foldl_cons]
        · intro r hr
          rw [hframe' r hr, hframe r hr]

/-- The shape of the program: one word that reads x0, then two for every further chunk. -/
theorem materialize_words (hrd : rd < 32) (hne : rd ≠ 0) (value : UInt64) :
    ∃ head immediate rest k, materialize rd value = .ok (head :: rest) ∧
      decode head = some (.opImm .add (reg rd) 0 immediate) ∧ rest.length = 2 * k ∧ k ≤ 5 ∧
      (∀ word ∈ rest, AddsOrShifts word) ∧
      ∀ s, ∃ s', Rv64i.run s (head :: rest) = some s' ∧ s'.x (reg rd) = value ∧
        ∀ r, r ≠ reg rd → s'.x r = s.x r := by
  obtain ⟨zeros, chunk, chunks', hsplit, hzeros, hfirst⟩ :=
    firstChunk_split (by simp [chunks] : chunks value ≠ [])
  have hsmall : ∀ chunk' ∈ zeros ++ chunk :: chunks', chunk'.toNat < 2 ^ 11 := by
    rw [← hsplit]
    exact fun chunk hmem => chunk_lt hmem
  have hchunk : chunk.toNat < 2 ^ 11 := hsmall chunk (by simp)
  have hreg := reg_ne_zero hrd hne
  obtain ⟨head, hhead, hdecode⟩ := addi_eq_ok hrd (by decide : (0 : UInt8) < 32)
    (chunkImmediate_fits hchunk)
  have htail : ∀ chunk' ∈ chunks', chunk'.toNat < 2 ^ 11 :=
    fun chunk' hmem => hsmall chunk' (by simp [hmem])
  obtain ⟨rest, hfold, hlength, hwords, hruns⟩ := pushChunks_spec hrd hne htail
  have hindex : indexed (chunks value) (firstChunk (chunks value)) = .ok chunk :=
    indexed_of_eq_some (by rw [hfirst, hsplit]; simp)
  have hslice : slicedFrom (chunks value) (firstChunk (chunks value) + 1) = .ok chunks' := by
    rw [slicedFrom_of_le (by rw [hfirst, hsplit]; simp), hfirst, hsplit]
    simp
  have hcount : zeros.length + (chunks'.length + 1) = 6 := by
    have hlen := congrArg List.length hsplit
    simpa [chunks] using hlen.symm
  refine ⟨head, immediateField (chunkImmediate chunk), rest, chunks'.length, ?_, hdecode, hlength,
    by omega, hwords, ?_⟩
  · rw [materialize, assertThat_of_true (by simpa using hne), ok_bind]
    show (indexed (chunks value) (firstChunk (chunks value)) >>= fun chunk =>
      addi rd 0 (chunkImmediate chunk) >>= fun head =>
        slicedFrom (chunks value) (firstChunk (chunks value) + 1) >>= fun rest =>
          rest.foldlM (pushChunk rd) [head]) = _
    rw [hindex, ok_bind, hhead, ok_bind, hslice, ok_bind]
    exact hfold [head]
  · intro s
    obtain ⟨s', hrun, hvalue, hframe⟩ := hruns (execute s (.opImm .add (reg rd) (reg 0)
      (immediateField (chunkImmediate chunk))))
    refine ⟨s', by rw [run_cons hdecode, hrun], ?_, ?_⟩
    · have hfirstValue : (execute s (.opImm .add (reg rd) (reg 0)
          (immediateField (chunkImmediate chunk)))).x (reg rd) = shiftIn 0 chunk := by
        have hzero : s.x (reg 0) = 0 := s.x_zero
        simp only [execute, State.x_setPc, State.x_write_self _ _ hreg, Operation.apply, hzero,
          extend_chunk hchunk, shiftIn]
        rw [UInt64.zero_shiftLeft]
      have hfoldl : (zeros ++ chunk :: chunks').foldl shiftIn 0 = value := by
        rw [← hsplit]
        exact foldl_shiftIn_chunks value
      rw [List.foldl_append, foldl_shiftIn_zeros hzeros, List.foldl_cons] at hfoldl
      rw [hvalue, hfirstValue, hfoldl]
    · intro r hr
      rw [hframe r hr]
      simp only [execute, State.x_setPc, State.x_write_of_ne _ _ hr]

/-- The constant is built, in at most eleven words. -/
theorem materialize_spec (hrd : rd < 32) (hne : rd ≠ 0) (value : UInt64) :
    ∃ words, materialize rd value = .ok words ∧ words.length ≤ 11 ∧
      Builds [(reg rd, value)] words := by
  obtain ⟨head, immediate, rest, k, hwords, hdecode, hlength, hk, hrest, hrun⟩ :=
    materialize_words hrd hne value
  refine ⟨head :: rest, hwords, by rw [List.length_cons]; omega, ?_, ?_⟩
  · intro word hword
    rcases List.mem_cons.1 hword with rfl | hword
    · exact sequential_opImm hdecode
    · exact (hrest word hword).sequential
  · intro s
    obtain ⟨s', hs', hvalue, hframe⟩ := hrun s
    refine ⟨s', hs', by simpa using hvalue, fun r hr => hframe r ?_⟩
    simpa using hr

/-- Every constant is built exactly, in any register but x0 and from any state, by an
odd number of additions and shifts of which the first does not read the register. -/
theorem materialize_exact (rd : UInt8) (hne : 1 ≤ rd) (hrd : rd ≤ 31) (value : UInt64) :
    ∃ words, materialize rd value = .ok words ∧ words.length % 2 = 1 ∧ words.length ≤ 11 ∧
      (∀ word ∈ words, AddsOrShifts word) ∧
      (∃ head i, words.head? = some head ∧ decode head = some i ∧ reg rd ∉ i.sources) ∧
      ∀ s, ∃ s', Rv64i.run s words = some s' ∧ s'.x (reg rd) = value ∧
        ∀ r, r ≠ reg rd → s'.x r = s.x r := by
  have hlt : rd < 32 := by
    rw [UInt8.lt_iff_toNat_lt]
    exact Nat.lt_succ_of_le (UInt8.le_iff_toNat_le.1 hrd)
  have hzero : rd ≠ 0 := by
    rintro rfl
    exact absurd hne (by decide)
  obtain ⟨head, immediate, rest, k, hwords, hdecode, hlength, hk, hrest, hrun⟩ :=
    materialize_words hlt hzero value
  refine ⟨head :: rest, hwords, by rw [List.length_cons]; omega, by rw [List.length_cons]; omega,
    ?_, ⟨head, _, rfl, hdecode, ?_⟩, hrun⟩
  · intro word hword
    rcases List.mem_cons.1 hword with rfl | hword
    · exact ⟨_, _, _, _, hdecode, Or.inl rfl⟩
    · exact hrest word hword
  · have hreg := reg_ne_zero hlt hzero
    simpa [Instruction.sources] using hreg

theorem materialize_exact_seven : ∃ words, materialize 7 0x123456789abcdef = .ok words ∧
    words.length % 2 = 1 ∧ words.length ≤ 11 ∧ (∀ word ∈ words, AddsOrShifts word) ∧
      (∃ head i, words.head? = some head ∧ decode head = some i ∧ reg 7 ∉ i.sources) ∧
      ∀ s, ∃ s', Rv64i.run s words = some s' ∧ s'.x (reg 7) = 0x123456789abcdef ∧
        ∀ r, r ≠ reg 7 → s'.x r = s.x r :=
  materialize_exact 7 (by decide) (by decide) 0x123456789abcdef

end CkbSail.DiffTest.Encode
