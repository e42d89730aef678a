import CkbSail.DiffTest.Proofs.CorpusCases
import Mathlib

/-!
# The corpus of every seed

The generated cases are built for every value the stream can give, and the fixed
ones are checked as they stand.
-/

namespace CkbSail.DiffTest

open CkbSail.Core CkbRunner PythonStd RustStd ProofSupport Rv64i Encode Scripts.RuntimeEvidence

/-! ## Building one case -/

theorem setup2_spec {rs1 rs2 : UInt8} (hrs1 : rs1 < 32) (hne1 : rs1 ≠ 0) (hrs2 : rs2 < 32)
    (hne2 : rs2 ≠ 0) (hne : reg rs1 ≠ reg rs2) (first second : UInt64) :
    ∃ words, setup2 rs1 first rs2 second = .ok words ∧ words.length ≤ 22 ∧
      Builds [(reg rs1, first), (reg rs2, second)] words := by
  obtain ⟨xs, hxs, hlength, hbuilds⟩ := materialize_spec hrs1 hne1 first
  obtain ⟨ys, hys, hlength', hbuilds'⟩ := materialize_spec hrs2 hne2 second
  refine ⟨xs ++ ys, ?_, ?_, hbuilds.append hbuilds' (by simpa using hne)⟩
  · rw [setup2, hxs, hys]
    rfl
  · rw [List.length_append]
    omega

/-- A stream of words from the k-th address on that stays in the window. -/
def StaysInside (k : Nat) (words : List UInt32) : Prop :=
  ∀ s : State, s.pc = address k → Along (fun s => inWindow s.pc = true) s words

theorem staysInside_sequential {k : Nat} {words : List UInt32}
    (hwords : ∀ word ∈ words, Sequential word) (hk : k + words.length < 2 ^ 14) :
    StaysInside k words := by
  intro s hs
  refine along_sequential (p := fun pc => inWindow pc = true) hwords fun j hj => ?_
  rw [hs, address_add]
  exact inWindow_address (by omega)

/-- A taken forward branch over one word, or a branch that falls through. -/
theorem staysInside_branch {k : Nat} {word next : UInt32} {c : Condition} {a b : Reg}
    (hdecode : decode word = some (.branch c a b 8)) (hnext : Sequential next)
    (hk : k + 3 < 2 ^ 14) : StaysInside k [word, next] := by
  intro s hs
  have hstep : step s word = some (execute s (.branch c a b 8)) := by
    rw [step, hdecode, Option.map_some]
  have htarget : (execute s (.branch c a b 8)).pc = address (k + 2) ∨
      (execute s (.branch c a b 8)).pc = address (k + 1) := by
    rw [execute, State.pc_setPc, hs]
    split_ifs
    · exact Or.inl (address_add k 2)
    · exact Or.inr (address_add k 1)
  have hrest : ∀ j, j + 1 < 2 ^ 14 → StaysInside j [next] := fun j hj =>
    staysInside_sequential (by simpa using hnext) (by simpa using hj)
  have hhere : inWindow s.pc = true := by
    rw [hs]
    exact inWindow_address (by omega)
  refine ⟨hhere, _, hstep, ?_⟩
  rcases htarget with htarget | htarget
  · exact hrest _ (by omega) _ htarget
  · exact hrest _ (by omega) _ htarget

/-- What the corpus holds for one generated case. -/
structure Generated (seed : UInt64) (id family : String) (case : TestProgram) : Prop where
  id_eq : case.id = id
  family_eq : case.family = family
  seed_eq : case.seed = some seed
  approved : Approved case
  runs : RunsAsDescribed case

/-- A case made of words that build the operands of a sentence, the instruction it
names, and words after it. -/
theorem generated_of (seed : UInt64) (id : String) {name : String} {mask value : Nat}
    {sentence : Sentence} {setup after : List UInt32} {word : UInt32}
    (hbuilds : Builds sentence.operands setup) (hsetup : setup.length ≤ 22)
    (hdecode : decode word = some sentence.instruction)
    (hinside : StaysInside setup.length (word :: after)) (hafter : after.length ≤ 1)
    (hsequential : ∀ w ∈ after, Sequential w) (hfamily : family (.str name) = .ok (mask, value))
    (hmatches : word.toNat &&& mask = value) :
    ∃ case, TestProgram.new id sentence.display name setup (word :: after) = .ok case ∧
      Generated seed id name (case.generated seed) := by
  have hlength : (setup ++ word :: after).length = setup.length + (after.length + 1) := by
    rw [List.length_append, List.length_cons]
  have hfits : (setup ++ word :: after).length < 2 ^ 61 := by omega
  refine ⟨_, dif_pos hfits, rfl, rfl, rfl, ?_, ?_⟩
  · have hfocus : (setup ++ word :: after)[setup.length]? = some word := by simp
    refine ⟨?_, ?_, ?_, ?_, ?_⟩
    · show 1 ≤ (setup ++ word :: after).length
      omega
    · show (setup ++ word :: after).length ≤ 256
      omega
    · show setup.length < (setup ++ word :: after).length
      omega
    · simp only [focusMatches, TestProgram.generated, hfocus, hfamily]
      exact matchesFamily_iff.2 hmatches
    · refine validateProgram_eq_ok.2 fun w hw => ?_
      rcases List.mem_append.1 hw with hw | hw
      · obtain ⟨i, hi, -⟩ := hbuilds.sequential w hw
        exact supported_of_decode hi
      · rcases List.mem_cons.1 hw with rfl | hw
        · exact supported_of_decode hdecode
        · obtain ⟨i, hi, -⟩ := hsequential w hw
          exact supported_of_decode hi
  · obtain ⟨s, hrun, hoperands, -⟩ := hbuilds.run resetState
    obtain ⟨s', hrun', hpc⟩ := run_sequential (s := resetState) hbuilds.sequential
    obtain rfl : s = s' := Option.some.inj (hrun.symm.trans hrun')
    have hsetupInside : StaysInside 0 setup := staysInside_sequential hbuilds.sequential (by omega)
    refine ⟨⟨sentence, rfl⟩, ?_, ?_⟩
    · exact Along.append (hsetupInside resetState rfl) hrun (hinside s hpc)
    · intro other hother
      obtain rfl : sentence = other := Sentence.display_injective hother
      refine ⟨s, word, ?_, hoperands, by simp [TestProgram.generated], hdecode⟩
      show run resetState ((setup ++ word :: after).take setup.length) = some s
      rw [List.take_left, hrun]

/-! ## The sentences of the generator -/

theorem display_add (left right : UInt64) : (Sentence.add 3 1 2 left right).display =
    s!"add x3, x1, x2 with x1 = {operandHex left} and x2 = {operandHex right}" := by
  have hfirst : "add " ++ Sentence.name 3 ++ ", " ++ Sentence.name 1 ++ ", " ++ Sentence.name 2 ++
      (" with " ++ Sentence.name 1 ++ " = ") = "add x3, x1, x2 with x1 = " := by decide +kernel
  have hsecond : " and " ++ Sentence.name 2 ++ " = " = " and x2 = " := by decide +kernel
  rw [Sentence.display]
  unfold Sentence.addText
  calc
    _ = ("add " ++ Sentence.name 3 ++ ", " ++ Sentence.name 1 ++ ", " ++ Sentence.name 2 ++
        (" with " ++ Sentence.name 1 ++ " = ")) ++ operandHex left ++
        (" and " ++ Sentence.name 2 ++ " = ") ++ operandHex right := by
          simp only [String.append_assoc]
          rfl
    _ = _ := by
      rw [hfirst, hsecond]
      rfl

theorem display_addi (immediate : BitVec 12) (base : UInt64) :
    (Sentence.addi 2 1 immediate base).display =
      s!"addi x2, x1, {immediate.toInt} with x1 = {operandHex base}" := by
  have hfirst : "addi " ++ Sentence.name 2 ++ ", " ++ Sentence.name 1 ++ ", " =
      "addi x2, x1, " := by decide +kernel
  have hsecond : " with " ++ Sentence.name 1 ++ " = " = " with x1 = " := by decide +kernel
  rw [Sentence.display]
  unfold Sentence.addiText
  calc
    _ = ("addi " ++ Sentence.name 2 ++ ", " ++ Sentence.name 1 ++ ", ") ++
        toString immediate.toInt ++ (" with " ++ Sentence.name 1 ++ " = ") ++
        operandHex base := by
          simp only [String.append_assoc]
          rfl
    _ = _ := by
      rw [hfirst, hsecond]
      rfl

theorem display_beq (left right : UInt64) : (Sentence.beq 1 2 8 left right).display =
    s!"beq x1, x2, +8 with x1 = {operandHex left} and x2 = {operandHex right}" := by
  have hfirst : "beq " ++ Sentence.name 1 ++ ", " ++ Sentence.name 2 ++ ", +" ++
      toString (8 : BitVec 12).toNat ++ (" with " ++ Sentence.name 1 ++ " = ") =
      "beq x1, x2, +8 with x1 = " := by decide +kernel
  have hsecond : " and " ++ Sentence.name 2 ++ " = " = " and x2 = " := by decide +kernel
  rw [Sentence.display]
  unfold Sentence.beqText
  calc
    _ = ("beq " ++ Sentence.name 1 ++ ", " ++ Sentence.name 2 ++ ", +" ++
        toString (8 : BitVec 12).toNat ++ (" with " ++ Sentence.name 1 ++ " = ")) ++
        operandHex left ++ (" and " ++ Sentence.name 2 ++ " = ") ++ operandHex right := by
          simp only [String.append_assoc]
          rfl
    _ = _ := by
      rw [hfirst, hsecond]
      rfl

/-! ## The loops of the generator -/

variable (seed : UInt64) (index : Nat)

theorem setup2_operands (left right : UInt64) :
    ∃ words, setup2 1 left 2 right = .ok words ∧ words.length ≤ 22 ∧
      Builds [(1, left), (2, right)] words :=
  setup2_spec (by decide) (by decide) (by decide) (by decide) (by decide) left right

theorem drawnAdd_spec (left right : UInt64) : ∃ case, drawnAdd index left right = .ok case ∧
    Generated seed s!"random-add-{index}" "ADD" (case.generated seed) := by
  obtain ⟨setup, hsetup, hlength, hbuilds⟩ := setup2_operands left right
  obtain ⟨word, hword, hdecode⟩ := add_eq_ok (by decide : (3 : UInt8) < 32)
    (by decide : (1 : UInt8) < 32) (by decide : (2 : UInt8) < 32)
  obtain ⟨case, hcase, hgenerated⟩ := @generated_of seed s!"random-add-{index}" _ _ _
    (.add 3 1 2 left right) _ [] _ hbuilds hlength hdecode
    (staysInside_sequential (by simpa using ⟨_, hdecode, rfl⟩) (by simp; omega)) (by simp)
    (by simp) (rfl : family (.str "ADD") = .ok (0xfe00707f, 0x33))
    (decode_add_iff.1 ⟨_, _, _, hdecode⟩)
  refine ⟨case, ?_, hgenerated⟩
  rw [display_add] at hcase
  rw [drawnAdd, hsetup, ok_bind, hword, ok_bind]
  exact hcase

/-- The draw of an immediate covers the signed range and does not overflow. -/
theorem immediate_draw (draw : UInt64) :
    ∃ immediate : Int32, checkedSub (draw % 4096).toUInt32.toInt32 2048 = .ok immediate ∧
      -2048 ≤ immediate ∧ immediate ≤ 2047 := by
  have hlt : (draw % 4096).toNat < 4096 := by
    rw [UInt64.toNat_mod]
    exact Nat.mod_lt _ (by decide)
  have hnat : (draw % 4096).toUInt32.toBitVec.toNat = (draw % 4096).toNat := by
    show (draw % 4096).toUInt32.toNat = (draw % 4096).toNat
    rw [UInt64.toNat_toUInt32, Nat.mod_eq_of_lt (by omega)]
  have hcond := BitVec.toInt_eq_toNat_cond (draw % 4096).toUInt32.toBitVec
  rw [hnat, if_pos (by omega)] at hcond
  have hvalue : (draw % 4096).toUInt32.toInt32.toInt = (draw % 4096).toNat := hcond
  have htwo : (2048 : Int32).toInt = 2048 := rfl
  have hlow : (-2048 : Int32).toInt = -2048 := rfl
  have hhigh : (2047 : Int32).toInt = 2047 := rfl
  refine ⟨Int32.ofInt ((draw % 4096).toNat - 2048), ?_, ?_⟩
  · rw [checkedSub, hvalue, htwo, if_pos (by omega)]
  · rw [Int32.le_iff_toInt_le, Int32.le_iff_toInt_le, hlow, hhigh,
      Int32.toInt_ofInt_of_le (by omega) (by omega)]
    omega

theorem toInt_immediateField {immediate : Int32} (h : -2048 ≤ immediate ∧ immediate ≤ 2047) :
    (immediateField immediate).toInt = immediate.toInt := by
  have hlow : (-2048 : Int32).toInt = -2048 := rfl
  have hhigh : (2047 : Int32).toInt = 2047 := rfl
  rw [Int32.le_iff_toInt_le, Int32.le_iff_toInt_le, hlow, hhigh] at h
  rw [immediateField, BitVec.toInt_ofInt]
  exact Int.bmod_eq_of_le (by omega) (by omega)

theorem drawnAddi_spec (base draw : UInt64) : ∃ case, drawnAddi index base draw = .ok case ∧
    Generated seed s!"random-addi-{index}" "ADDI" (case.generated seed) := by
  obtain ⟨immediate, hdraw, hrange⟩ := immediate_draw draw
  obtain ⟨setup, hsetup, hlength, hbuilds⟩ :=
    materialize_spec (by decide : (1 : UInt8) < 32) (by decide) base
  obtain ⟨word, hword, hdecode⟩ := addi_eq_ok (by decide : (2 : UInt8) < 32)
    (by decide : (1 : UInt8) < 32) hrange
  obtain ⟨case, hcase, hgenerated⟩ := @generated_of seed s!"random-addi-{index}" _ _ _
    (.addi 2 1 (immediateField immediate) base) _ [] _ hbuilds (by omega) hdecode
    (staysInside_sequential (by simpa using ⟨_, hdecode, rfl⟩) (by simp; omega)) (by simp)
    (by simp) (rfl : family (.str "ADDI") = .ok (0x707f, 0x13))
    (decode_addi_iff.1 ⟨_, _, _, hdecode⟩)
  refine ⟨case, ?_, hgenerated⟩
  have htext : toString immediate.toInt = toString immediate := rfl
  rw [display_addi, toInt_immediateField hrange, htext] at hcase
  rw [drawnAddi, hdraw, ok_bind, hsetup, ok_bind, hword, ok_bind]
  exact hcase

theorem drawnBeq_spec (left right : UInt64) : ∃ case, drawnBeq index left right = .ok case ∧
    Generated seed s!"random-beq-{index}" "BEQ" (case.generated seed) := by
  obtain ⟨setup, hsetup, hlength, hbuilds⟩ := setup2_operands left right
  obtain ⟨word, hword, hdecode⟩ := beq_eq_ok (by decide : (1 : UInt8) < 32)
    (by decide : (2 : UInt8) < 32) (by decide : (-4096 : Int32) ≤ 8 ∧ (8 : Int32) ≤ 4094)
    (by decide)
  obtain ⟨next, hnext, hdecode'⟩ := addi_eq_ok (by decide : (3 : UInt8) < 32)
    (by decide : (0 : UInt8) < 32) (by decide : (-2048 : Int32) ≤ 1 ∧ (1 : Int32) ≤ 2047)
  have hsequential := sequential_opImm hdecode'
  obtain ⟨case, hcase, hgenerated⟩ := @generated_of seed s!"random-beq-{index}" _ _ _
    (.beq 1 2 8 left right) _ [next] _ hbuilds hlength hdecode
    (staysInside_branch hdecode hsequential (by omega)) (by simp)
    (by simpa using hsequential) (rfl : family (.str "BEQ") = .ok (0x707f, 0x63))
    (decode_beq_iff.1 ⟨_, _, _, hdecode⟩)
  refine ⟨case, ?_, hgenerated⟩
  rw [display_beq] at hcase
  rw [drawnBeq, hsetup, ok_bind, hword, ok_bind, hnext, ok_bind]
  exact hcase

/-! ## The loops of the generator -/

theorem randomAdd_spec (random : SplitMix64) :
    ∃ case random', randomAdd seed index random = .ok (case, random') ∧
      Generated seed s!"random-add-{index}" "ADD" case := by
  obtain ⟨case, hcase, hgenerated⟩ :=
    drawnAdd_spec seed index random.next.1 random.next.2.next.1
  refine ⟨case.generated seed, random.next.2.next.2, ?_, hgenerated⟩
  show (drawnAdd index random.next.1 random.next.2.next.1 >>= fun case =>
    pure (case.generated seed, random.next.2.next.2)) = _
  rw [hcase]
  rfl

theorem randomAddi_spec (random : SplitMix64) :
    ∃ case random', randomAddi seed index random = .ok (case, random') ∧
      Generated seed s!"random-addi-{index}" "ADDI" case := by
  obtain ⟨case, hcase, hgenerated⟩ :=
    drawnAddi_spec seed index random.next.1 random.next.2.next.1
  refine ⟨case.generated seed, random.next.2.next.2, ?_, hgenerated⟩
  show (drawnAddi index random.next.1 random.next.2.next.1 >>= fun case =>
    pure (case.generated seed, random.next.2.next.2)) = _
  rw [hcase]
  rfl

theorem randomBeq_spec (random : SplitMix64) :
    ∃ case random', randomBeq seed index random = .ok (case, random') ∧
      Generated seed s!"random-beq-{index}" "BEQ" case := by
  obtain ⟨left, random₁, hleft⟩ : ∃ left random₁, random.next = (left, random₁) := ⟨_, _, rfl⟩
  obtain ⟨right, random', hright⟩ : ∃ right random',
      (if index % 2 = 0 then (left, random₁) else random₁.next) = (right, random') := ⟨_, _, rfl⟩
  obtain ⟨case, hcase, hgenerated⟩ := drawnBeq_spec seed index left right
  refine ⟨case.generated seed, random', ?_, hgenerated⟩
  rw [randomBeq, hleft]
  dsimp only
  rw [hright]
  dsimp only
  rw [hcase]
  rfl

/-- A loop pushes one case a pass. -/
theorem pushCases_spec {make : Nat → SplitMix64 → Panics (TestProgram × SplitMix64)}
    {P : Nat → TestProgram → Prop}
    (hmake : ∀ index random, ∃ case random', make index random = .ok (case, random') ∧ P index case)
    (indices : List Nat) (random : SplitMix64) :
    ∃ cases random', pushCases make indices random = .ok (cases, random') ∧
      List.Forall₂ P indices cases := by
  induction indices generalizing random with
  | nil => exact ⟨[], random, rfl, .nil⟩
  | cons index indices ih =>
      obtain ⟨case, random₁, hcase, hP⟩ := hmake index random
      obtain ⟨cases, random₂, hcases, hall⟩ := ih random₁
      refine ⟨case :: cases, random₂, ?_, .cons hP hall⟩
      simp only [pushCases, hcase, hcases, bind, Except.bind, pure, Except.pure]

/-- The names and families of the seven generated cases. -/
def generatedIds : List (String × String) :=
  [("random-add-0", "ADD"), ("random-add-1", "ADD"), ("random-add-2", "ADD"),
    ("random-addi-0", "ADDI"), ("random-addi-1", "ADDI"),
    ("random-beq-0", "BEQ"), ("random-beq-1", "BEQ")]

theorem generatedCases_spec (seed : UInt64) : ∃ cases, generatedCases seed = .ok cases ∧
    List.Forall₂ (fun name case => Generated seed name.1 name.2 case) generatedIds cases := by
  obtain ⟨adds, random₁, hadds, hadd⟩ := pushCases_spec (randomAdd_spec seed) (List.range 3)
    (SplitMix64.new seed)
  obtain ⟨addis, random₂, haddis, haddi⟩ := pushCases_spec (randomAddi_spec seed) (List.range 2)
    random₁
  obtain ⟨beqs, random₃, hbeqs, hbeq⟩ := pushCases_spec (randomBeq_spec seed) (List.range 2)
    random₂
  refine ⟨adds ++ addis ++ beqs, ?_, ?_⟩
  · rw [generatedCases, hadds, ok_bind]
    show (pushCases (randomAddi seed) (List.range 2) random₁ >>= _) = _
    rw [haddis, ok_bind]
    show (pushCases (randomBeq seed) (List.range 2) random₂ >>= _) = _
    rw [hbeqs]
    rfl
  · have hnames : (List.range 3).map (fun index => (s!"random-add-{index}", "ADD")) ++
        (List.range 2).map (fun index => (s!"random-addi-{index}", "ADDI")) ++
        (List.range 2).map (fun index => (s!"random-beq-{index}", "BEQ")) = generatedIds := by
      decide +kernel
    rw [← hnames]
    have hfirst : List.Forall₂ (fun name case => Generated seed name.1 name.2 case)
        ((List.range 3).map fun index => (s!"random-add-{index}", "ADD")) adds :=
      List.forall₂_map_left_iff.2 hadd
    have hsecond : List.Forall₂ (fun name case => Generated seed name.1 name.2 case)
        ((List.range 2).map fun index => (s!"random-addi-{index}", "ADDI")) addis :=
      List.forall₂_map_left_iff.2 haddi
    have hthird : List.Forall₂ (fun name case => Generated seed name.1 name.2 case)
        ((List.range 2).map fun index => (s!"random-beq-{index}", "BEQ")) beqs :=
      List.forall₂_map_left_iff.2 hbeq
    exact List.rel_append (List.rel_append hfirst hsecond) hthird

/-! ## The fixed cases -/

/-- The names and families of the fixed cases. -/
def fixedIds : List (String × String) :=
  [("add-zero", "ADD"), ("add-all-ones-wraps", "ADD"), ("add-signed-overflow", "ADD"),
    ("add-signed-underflow", "ADD"), ("add-unsigned-overflow", "ADD"),
    ("add-rd-aliases-rs1", "ADD"), ("add-rd-aliases-rs2", "ADD"),
    ("add-all-operands-alias", "ADD"), ("add-rd-is-x0", "ADD"),
    ("add-writes-back-the-same-value", "ADD"), ("addi-zero", "ADDI"),
    ("addi-maximum-immediate", "ADDI"), ("addi-minimum-immediate", "ADDI"),
    ("addi-signed-overflow", "ADDI"), ("addi-all-ones-wraps", "ADDI"),
    ("addi-negative-into-zero", "ADDI"), ("addi-rd-aliases-rs1", "ADDI"),
    ("addi-rd-is-x0", "ADDI"), ("beq-taken-forward", "BEQ"), ("beq-not-taken-forward", "BEQ"),
    ("beq-taken-backward", "BEQ"), ("beq-not-taken-backward", "BEQ"),
    ("beq-x0-x0-always-taken", "BEQ"), ("beq-sign-boundary-operands", "BEQ"),
    ("beq-equal-all-ones", "BEQ"), ("beq-self-target", "BEQ")]

/-- The name and the family of a case. -/
def label (case : TestProgram) : String × String := (case.id, case.family)

theorem fixedCases_spec : ∃ cases, fixedCases = .ok cases ∧ cases.map label = fixedIds ∧
    ∀ case ∈ cases, Approved case ∧ case.seed = none := by
  have hcheck : (match fixedCases with
      | .ok cases => decide (cases.map label = fixedIds ∧
          ∀ case ∈ cases, Approved case ∧ case.seed = none)
      | .error _ => false) = true := by decide +kernel
  cases hfixed : fixedCases with
  | error message =>
      rw [hfixed] at hcheck
      cases hcheck
  | ok cases =>
      rw [hfixed] at hcheck
      exact ⟨cases, rfl, of_decide_eq_true hcheck⟩

/-! ## The corpus -/

/-- The corpus is built for every seed, is what the evidence validator approves, and
every generated case runs as its description says. -/
theorem week2Corpus_valid : ∃ unseeded, ∀ seed, ∃ corpus, week2Corpus seed = .ok corpus ∧
    (corpus.map TestProgram.id).Nodup ∧ (∀ case ∈ corpus, Approved case) ∧
    (∀ family ∈ FAMILIES.map Prod.fst, 10 ≤ corpus.countP fun case => case.family = family) ∧
    corpus.filter (fun case => case.seed.isNone) = unseeded ∧
    ∀ case ∈ corpus, case.seed.isSome → RunsAsDescribed case := by
  obtain ⟨fixed, hfixed, hlabels, hall⟩ := fixedCases_spec
  refine ⟨fixed, fun seed => ?_⟩
  obtain ⟨generated, hgenerated, hcases⟩ := generatedCases_spec seed
  refine ⟨fixed ++ generated, by rw [week2Corpus, hfixed, ok_bind, hgenerated]; rfl, ?_⟩
  have hgeneratedLabels : generated.map label = generatedIds := by
    have hlabel : List.Forall₂ (fun name case => name = label case) generatedIds generated :=
      hcases.imp fun name case h => by rw [label, h.id_eq, h.family_eq]
    rw [← List.forall₂_map_right_iff, List.forall₂_eq_eq_eq] at hlabel
    exact hlabel.symm
  have heach : ∀ case ∈ generated,
      Approved case ∧ case.seed = some seed ∧ RunsAsDescribed case := by
    intro case hmem
    obtain ⟨k, hk, rfl⟩ := List.getElem_of_mem hmem
    have hlength : k < generatedIds.length := by
      rw [hcases.length_eq]
      exact hk
    have h := hcases.get hlength hk
    exact ⟨h.approved, h.seed_eq, h.runs⟩
  have hcorpus : (fixed ++ generated).map label = fixedIds ++ generatedIds := by
    rw [List.map_append, hlabels, hgeneratedLabels]
  refine ⟨?_, ?_, ?_, ?_, ?_⟩
  · have hids : (fixed ++ generated).map TestProgram.id = (fixedIds ++ generatedIds).map Prod.fst := by
      rw [← hcorpus, List.map_map]
      rfl
    rw [hids]
    decide
  · intro case hmem
    rcases List.mem_append.1 hmem with hmem | hmem
    · exact (hall case hmem).1
    · exact (heach case hmem).1
  · intro family hfamily
    have hcount : (fixed ++ generated).countP (fun case => case.family = family) =
        (fixedIds ++ generatedIds).countP fun name => name.2 = family := by
      rw [← hcorpus, List.countP_map]
      rfl
    rw [hcount]
    clear hcount
    revert family
    decide
  · have hnone : fixed.filter (fun case => case.seed.isNone) = fixed :=
      List.filter_eq_self.2 fun case hmem => by rw [(hall case hmem).2]; rfl
    have hsome : generated.filter (fun case => case.seed.isNone) = [] :=
      List.filter_eq_nil_iff.2 fun case hmem => by simp [(heach case hmem).2.1]
    rw [List.filter_append, hnone, hsome, List.append_nil]
  · intro case hmem hseed
    rcases List.mem_append.1 hmem with hmem | hmem
    · rw [(hall case hmem).2] at hseed
      cases hseed
    · exact (heach case hmem).2.2

end CkbSail.DiffTest
