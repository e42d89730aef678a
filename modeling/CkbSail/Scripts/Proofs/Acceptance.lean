import CkbSail.Scripts.RuntimeEvidence

/-!
# What acceptance of a case has checked

`checkRecorded_ok` collects the facts about an accepted artifact that later
results use, without going through the checks again.
-/

namespace CkbSail.Scripts.RuntimeEvidence

open PythonStd

/-- The words of the program of an artifact. -/
def programWords (artifact : Json) : Py (List Json) := do
  let case ← artifact.getItem "case"
  let words ← case.getItem "instructions"
  words.iter

/-- The raw packets of an artifact. -/
def rawPackets (artifact : Json) : Py (List Json) := do
  let packets ← artifact.getItem "sail_raw_packets"
  packets.iter

/-- The program of an accepted artifact. -/
structure AcceptedProgram (artifact case : Json) (words : List Json) (focus : Nat) : Prop where
  read : artifact.getItem "case" = .ok case
  instructions : case.getItem "instructions" = .ok (.arr words)
  focusStep : case.getItem "focus_step" = .ok (.int focus)
  inside : focus < words.length

theorem AcceptedProgram.programWords {artifact case : Json} {words : List Json} {focus : Nat}
    (h : AcceptedProgram artifact case words focus) : programWords artifact = .ok words := by
  simp [RuntimeEvidence.programWords, bind, Except.bind, h.read, h.instructions, Json.iter]

theorem checkProgram_ok {artifact case : Json} {words : List Json}
    (h : checkProgram artifact = .ok (case, words)) :
    ∃ focus, AcceptedProgram artifact case words focus := by
  simp only [checkProgram, Py.bind_eq_ok, Py.pure_eq_ok, requirePy_eq_ok, require_eq_ok,
    exists_const] at h
  obtain ⟨_, _, _, _, hcase, instructions, hinstructions, focus, hfocus, hlist, words', hiter, _,
    hinside, _, _, _, _, _, _, _, _, _, _, _, _, _, _, _, _, hresult⟩ := h
  obtain ⟨rfl, rfl⟩ := Prod.mk.inj hresult
  cases instructions with
  | arr items =>
      obtain rfl : items = words' := Except.ok.inj hiter
      obtain ⟨i, rfl, hlow, hhigh⟩ := Json.integer_eq_true.1 hinside
      obtain ⟨k, rfl⟩ := Int.eq_ofNat_of_zero_le hlow
      exact ⟨k, hcase, hinstructions, hfocus, by omega⟩
  | _ => simp [Json.isList] at hlist

/-- A trace the checks accepted has one event for each word, and ends as an injected
program does. -/
theorem checkTrace_ok {words : List Json} {trace : Json} (h : checkTrace words trace = .ok ()) :
    ∃ events traceEnd, trace.getItem "events" = .ok events ∧
      events.len = .ok words.length ∧ trace.getItem "end" = .ok traceEnd ∧
      traceEnd.eq (.obj [("kind", .str "injection_complete")]) = true := by
  simp only [checkTrace, Py.bind_eq_ok, requirePy_eq_ok, require_eq_ok, exists_const,
    Bool.and_eq_true, decide_eq_true_eq] at h
  obtain ⟨-, events, hevents, length, hlen, traceEnd, hend, ⟨rfl, hkind⟩, -⟩ := h
  exact ⟨events, traceEnd, hevents, hlen, hend, hkind⟩

/-- An artifact the checks before the raw packets accepted. -/
structure AcceptedTraces (artifact : Json) (words : List Json) (ckb sail : Json) : Prop where
  ckbRead : artifact.getItem "ckb_trace" = .ok ckb
  sailRead : artifact.getItem "sail_trace" = .ok sail
  ckbChecked : checkTrace words ckb = .ok ()
  sailChecked : checkTrace words sail = .ok ()
  equal : firstDifference ckb sail = .ok (none, none)

theorem checkRecorded_ok {row artifact environment : Json} {words : List Json}
    (h : checkRecorded row artifact environment = .ok words) :
    ∃ case focus ckb sail, AcceptedProgram artifact case words focus ∧
      AcceptedTraces artifact words ckb sail := by
  simp only [checkRecorded, Py.bind_eq_ok, Py.pure_eq_ok, require_eq_ok, exists_const,
    decide_eq_true_eq] at h
  obtain ⟨⟨case, words'⟩, hprogram, _, _, ckb, hckb, _, hckbTrace, sail, hsail, _, hsailTrace, _,
    hdifference, rfl, rfl⟩ := h
  obtain ⟨focus, haccepted⟩ := checkProgram_ok hprogram
  exact ⟨case, focus, ckb, sail, haccepted, hckb, hsail, hckbTrace, hsailTrace, hdifference⟩

theorem checkCase_ok {row artifact environment : Json}
    (h : checkCase row artifact environment = .ok ()) :
    ∃ words packets, checkRecorded row artifact environment = .ok words ∧
      artifact.getItem "sail_raw_packets" = .ok packets ∧ checkPackets words packets = .ok () ∧
      ∃ replay command, artifact.getItem "replay" = .ok replay ∧
        replay.getItem "from_artifact" = .ok command ∧
        (command.isStr && command.truthy) = true := by
  simp only [checkCase, Py.bind_eq_ok, require_eq_ok] at h
  obtain ⟨words, hrecorded, packets, hpackets, _, hchecked, replay, hreplay, command, hcommand,
    htext⟩ := h
  exact ⟨words, packets, hrecorded, hpackets, hchecked, replay, command, hreplay, hcommand, htext⟩

/-! ## The raw packets -/

theorem length_of_iter {value : Json} {items : List Json} {n : Nat} (hlen : value.len = .ok n)
    (hiter : value.iter = .ok items) : items.length = n := by
  cases value with
  | str text =>
      obtain rfl := Except.ok.inj hiter
      obtain rfl := Except.ok.inj hlen
      rw [List.length_map, String.length_toList]
  | arr xs =>
      obtain rfl := Except.ok.inj hiter
      exact Except.ok.inj hlen
  | obj fields =>
      obtain rfl := Except.ok.inj hiter
      obtain rfl := Except.ok.inj hlen
      simp
  | _ => simp [Json.len] at hlen

theorem checkPackets_ok {words : List Json} {packets : Json}
    (h : checkPackets words packets = .ok ()) :
    ∃ items, packets.iter = .ok items ∧ items.length = words.length + 1 ∧
      ∀ item ∈ items, isPacket item = true := by
  simp only [checkPackets, Py.bind_eq_ok, require_eq_ok, exists_const, decide_eq_true_eq,
    List.all_eq_true] at h
  obtain ⟨n, hlen, rfl, items, hiter, hall⟩ := h
  exact ⟨items, hiter, length_of_iter hlen hiter, hall⟩

theorem checkPackets_of_items {words items : List Json} (hlength : items.length = words.length + 1)
    (hall : ∀ item ∈ items, isPacket item = true) : checkPackets words (.arr items) = .ok () := by
  have hpackets : items.all isPacket = true := List.all_eq_true.2 hall
  simp only [checkPackets, bind, Except.bind, Json.len, Json.iter, hlength, decide_true, hpackets,
    require, if_true]

end CkbSail.Scripts.RuntimeEvidence
