import Capio.Lib.Format
import Capio.Lib.Outcome
import Capio.Lib.TextSearch

/-! # The options of the MTCL backend

`RuntimeConfiguration` takes a protocol, a port and a poll interval from one string.
-/
namespace Capio.Server.RuntimeConfiguration

open Lib.Format Lib.Outcome Lib.TextSearch List

structure Mtcl where
  protocol : List Char
  port : Int
  pollInterval : Int
  deriving DecidableEq

def Mtcl.default : Mtcl := ⟨"TCP".toList, 7600, 1000000⟩

inductive Exception
  | runtimeError (what : List Char)
  | invalidArgument
  | outOfRange
  deriving DecidableEq

def substr (text : List Char) (pos count : Nat) : Except Exception (List Char) :=
  if text.length < pos then .error .outOfRange else .ok ((text.drop pos).take count)

/-- The value and the number of characters that it takes. -/
def stoi (text : List Char) : Except Exception (Int × Nat) :=
  match scanInt (text.dropWhile isSpace) with
  | none => .error .invalidArgument
  | some (n, rest) =>
    if Width.int.Fits n then .ok (n, text.length - rest.length) else .error .outOfRange

/-- The positions of ':' and '@', if the options have the form of a protocol, a port and an interval. -/
def mtclPositions (options : List Char) : Option (Nat × Nat) :=
  let colon := find options [':'] 0
  let atSign := find options ['@'] (next colon)
  match colon, atSign with
  | some colon, some atSign =>
    if colon = 0 ∨ atSign = colon + 1 ∨ atSign + 1 = options.length ∨
        find options [':'] (colon + 1) ≠ none ∨ find options ['@'] (atSign + 1) ≠ none then none
    else some (colon, atSign)
  | _, _ => none

def portAndInterval (options : List Char) (colon atSign : Nat) : Except Exception (Int × Int) := do
  let (port, parsed) ← stoi (← substr options (colon + 1) (atSign - colon - 1))
  if parsed ≠ atSign - colon - 1 ∨ port ≤ 0 ∨ port > 65535 then .error .invalidArgument
  else
    let (interval, parsed) ← stoi (← substr options (atSign + 1) options.length)
    if parsed ≠ options.length - atSign - 1 ∨ interval ≤ 0 then .error .invalidArgument
    else .ok (port, interval)

def mtclOptions (options : List Char) : Except Exception Mtcl :=
  match mtclPositions options with
  | none => .error (.runtimeError ("Invalid MTCL backend options '".toList ++ options ++
      "'. Expected PROTO:PORT@POLL_INTERVAL_US.".toList))
  | some (colon, atSign) => do
    let protocol ← substr options 0 colon
    match portAndInterval options colon atSign with
    | .error _ => .error (.runtimeError (
        "Invalid MTCL port or poll interval in backend options '".toList ++ options ++
          "'. Expected positive integers.".toList))
    | .ok (port, interval) => .ok ⟨protocol, port, interval⟩

def backendOptions (backendName options : List Char) : Except Exception Mtcl :=
  if backendName = "mtcl".toList ∧ options ≠ [] then mtclOptions options else .ok .default

/-! ## The form of the options -/

/-- The options are `P:N@I`. -/
structure Form (options P N I : List Char) : Prop where
  text : options = P ++ ':' :: (N ++ '@' :: I)
  protocol : P ≠ [] ∧ ':' ∉ P
  port : N ≠ [] ∧ ':' ∉ N ∧ '@' ∉ N
  interval : I ≠ [] ∧ ':' ∉ I ∧ '@' ∉ I

theorem find_colon (hP : ':' ∉ P) : find (P ++ ':' :: rest) [':'] 0 = some P.length := by
  simpa using find_first [] rest hP

theorem find_behind_colon (c : Char) :
    find (P ++ ':' :: rest) [c] (P.length + 1) = find (P ++ [':'] ++ rest) [c] (P ++ [':']).length := by
  simp

theorem find_atSign (hN : '@' ∉ N) :
    find (P ++ ':' :: (N ++ '@' :: rest)) ['@'] (P.length + 1) = some (P.length + 1 + N.length) := by
  rw [find_behind_colon, find_first _ rest hN]
  simp

theorem colon_absent_iff : find (P ++ ':' :: rest) [':'] (P.length + 1) = none ↔ ':' ∉ rest := by
  rw [find_behind_colon]
  exact find_eq_none_iff _

theorem atSign_absent_iff :
    find (P ++ ':' :: (N ++ '@' :: rest)) ['@'] (P.length + 1 + N.length + 1) = none ↔ '@' ∉ rest := by
  have hLength : (P ++ ':' :: N ++ ['@']).length = P.length + 1 + N.length + 1 := by
    simp
    omega
  rw [← find_eq_none_iff (P ++ ':' :: N ++ ['@']), hLength]
  simp

theorem mtclPositions_of_signs (hP : ':' ∉ P) (hN : '@' ∉ N) : mtclPositions (P ++ ':' :: (N ++ '@' :: I)) =
      if P = [] ∨ N = [] ∨ I = [] ∨ ':' ∈ N ++ '@' :: I ∨ '@' ∈ I then none
      else some (P.length, P.length + 1 + N.length) := by
  have hNext : next (some P.length) = P.length + 1 := rfl
  unfold mtclPositions
  rw [find_colon hP]
  dsimp only
  rw [hNext, find_atSign hN]
  dsimp only
  have hEnd : P.length + 1 + N.length + 1 = (P ++ ':' :: (N ++ '@' :: I)).length ↔ I = [] := by
    rw [← length_eq_zero_iff]
    simp only [length_append, length_cons]
    omega
  simp only [Ne, colon_absent_iff, atSign_absent_iff, hEnd, Decidable.not_not, length_eq_zero_iff,
    Nat.add_eq_left]

theorem mtclPositions_eq_some_iff : mtclPositions options = some (colon, atSign) ↔
      ∃ P N I, Form options P N I ∧ colon = P.length ∧ atSign = P.length + 1 + N.length := by
  constructor
  · intro h
    by_cases hColon : ':' ∈ options
    · obtain ⟨P, rest, rfl, hP⟩ := eq_append_cons_of_mem hColon
      by_cases hAt : '@' ∈ rest
      · obtain ⟨N, I, rfl, hN⟩ := eq_append_cons_of_mem hAt
        rw [mtclPositions_of_signs hP hN] at h
        split at h
        · cases h
        · next hForm =>
          cases h
          simp only [not_or, mem_append, mem_cons] at hForm
          obtain ⟨hPs, hNs, hIs, ⟨hNc, -, hIc⟩, hIa⟩ := hForm
          exact ⟨P, N, I, ⟨rfl, ⟨hPs, hP⟩, ⟨hNs, hNc, hN⟩, hIs, hIc, hIa⟩, rfl, rfl⟩
      · have hNone : find (P ++ ':' :: rest) ['@'] (P.length + 1) = none := by
          rw [find_behind_colon]
          exact (find_eq_none_iff _).mpr hAt
        have hNext : next (some P.length) = P.length + 1 := rfl
        grind [mtclPositions, find_colon]
    · have hNone : find options [':'] 0 = none := (find_eq_none_iff []).mpr hColon
      unfold mtclPositions at h
      rw [hNone] at h
      cases h
  · rintro ⟨P, N, I, ⟨rfl, ⟨hPs, hP⟩, ⟨hNs, hNc, hN⟩, hIs, hIc, hIa⟩, rfl, rfl⟩
    grind [mtclPositions_of_signs]

/-! ## What is accepted -/

theorem substr_middle (front middle back : List Char) :
    substr (front ++ (middle ++ back)) front.length middle.length = .ok middle := by
  simp [substr]

/-- The numbers of the form are read to their ends and lie in their ranges. -/
def Numbers (N I : List Char) (port interval : Int) : Prop :=
  stoi N = .ok (port, N.length) ∧ (1 ≤ port ∧ port ≤ 65535) ∧
    stoi I = .ok (interval, I.length) ∧ 1 ≤ interval ∧ interval ≤ 2147483647

theorem Numbers.unique {r r' : Mtcl} (h : Numbers N I r.port r.pollInterval)
    (hProtocol : r.protocol = r'.protocol) (h' : Numbers N I r'.port r'.pollInterval) : r = r' := by
  obtain ⟨hPort, -, hInterval, -⟩ := h
  obtain ⟨hPort', -, hInterval', -⟩ := h'
  rw [hPort] at hPort'
  rw [hInterval] at hInterval'
  cases r
  cases r'
  cases hPort'
  cases hInterval'
  cases hProtocol
  rfl

theorem fits_of_stoi (h : stoi text = .ok (n, parsed)) : n ≤ 2147483647 := by
  unfold stoi at h
  split at h
  · cases h
  · split at h
    · next hFits =>
      cases h
      exact Int.le_of_lt_add_one hFits.2
    · cases h

theorem Form.substr_port (h : Form options P N I) : substr options (P.length + 1) N.length = .ok N := by
  rw [h.text]
  simpa using substr_middle (P ++ [':']) N ('@' :: I)

theorem Form.substr_interval (h : Form options P N I) :
    substr options (P.length + 1 + N.length + 1) options.length = .ok I := by
  have hText : options = (P ++ ':' :: N ++ ['@']) ++ I := by simp [h.text]
  have hPos : P.length + 1 + N.length + 1 = (P ++ ':' :: N ++ ['@']).length := by
    simp
    omega
  rw [hPos, substr, if_neg (by rw [hText]; simp)]
  rw [take_of_length_le (by simp)]
  rw [hText, drop_left]

theorem Form.portAndInterval_eq_ok_iff (h : Form options P N I) {port interval : Int} :
    portAndInterval options P.length (P.length + 1 + N.length) = .ok (port, interval) ↔
      Numbers N I port interval := by
  have hCount : P.length + 1 + N.length - P.length - 1 = N.length := by omega
  have hRest : options.length - (P.length + 1 + N.length) - 1 = I.length := by
    rw [h.text]
    simp
    omega
  unfold portAndInterval Numbers
  rw [hCount, h.substr_port, hRest, h.substr_interval]
  simp only [ok_bind]
  cases hPort : stoi N with
  | error e => simp [bind, Except.bind]
  | ok r =>
    cases hInterval : stoi I with
    | error e =>
      simp only [bind, Except.bind]
      split <;> simp
    | ok r' =>
      have hHigh := fits_of_stoi hInterval
      simp only [ok_bind]
      grind

theorem Form.mtclOptions (h : Form options P N I) : Ends (mtclOptions options)
      (fun r => r.protocol = P ∧ Numbers N I r.port r.pollInterval)
      fun e => (¬ ∃ port interval, Numbers N I port interval) ∧ ∃ what, e = .runtimeError what := by
  have hProtocol : substr options 0 P.length = .ok P := by
    rw [h.text]
    exact substr_middle [] P _
  unfold RuntimeConfiguration.mtclOptions
  rw [mtclPositions_eq_some_iff.mpr ⟨P, N, I, h, rfl, rfl⟩]
  dsimp only
  rw [hProtocol, ok_bind]
  cases hParsed : portAndInterval options P.length (P.length + 1 + N.length) with
  | ok r => exact ⟨rfl, h.portAndInterval_eq_ok_iff.mp hParsed⟩
  | error e =>
    refine ⟨?_, _, rfl⟩
    rintro ⟨port, interval, hNumbers⟩
    rw [h.portAndInterval_eq_ok_iff.mpr hNumbers] at hParsed
    cases hParsed

theorem mtclOptions_of_no_form (h : ¬ ∃ P N I, Form options P N I) :
    Ends (mtclOptions options) (fun _ => False) fun e => ∃ what, e = .runtimeError what := by
  unfold mtclOptions
  cases hPositions : mtclPositions options with
  | none => exact ⟨_, rfl⟩
  | some r =>
    obtain ⟨P, N, I, hForm, -⟩ := mtclPositions_eq_some_iff.mp hPositions
    exact absurd ⟨P, N, I, hForm⟩ h

theorem Form.unique (h : Form options P N I) (h' : Form options P' N' I') : P = P' ∧ N = N' ∧ I = I' := by
  have hSame := (mtclPositions_eq_some_iff.mpr ⟨P, N, I, h, rfl, rfl⟩).symm.trans
    (mtclPositions_eq_some_iff.mpr ⟨P', N', I', h', rfl, rfl⟩)
  grind [Option.some_inj, Prod.mk.injEq, h.text, h'.text, append_inj, cons.inj]

/-- With backend `mtcl`, exactly the options of the form `P:N@I` with numbers in their ranges are
accepted, there is one way to read them, all others end in a `runtime_error`, and the positions that
`substr` is given lie in the string. -/
theorem mtcl_options_accepted_iff (hSome : options ≠ []) :
    (∀ r, backendOptions "mtcl".toList options = .ok r ↔
      ∃ N I, Form options r.protocol N I ∧ Numbers N I r.port r.pollInterval) ∧
    (∀ P N I P' N' I', Form options P N I → Form options P' N' I' → P = P' ∧ N = N' ∧ I = I') ∧
    (∀ e, backendOptions "mtcl".toList options = .error e → ∃ what, e = .runtimeError what) ∧
    ∀ colon atSign, mtclPositions options = some (colon, atSign) →
      colon < atSign ∧ atSign + 1 ≤ options.length := by
  have hParse : backendOptions "mtcl".toList options = mtclOptions options := if_pos ⟨rfl, hSome⟩
  rw [hParse]
  refine ⟨fun r => ?_, fun P N I P' N' I' h h' => h.unique h', fun e hError => ?_, ?_⟩
  · constructor
    · intro hOk
      by_cases hForm : ∃ P N I, Form options P N I
      · obtain ⟨P, N, I, hForm⟩ := hForm
        obtain ⟨rfl, hNumbers⟩ := hForm.mtclOptions.result hOk
        exact ⟨N, I, hForm, hNumbers⟩
      · exact ((mtclOptions_of_no_form hForm).result hOk).elim
    · rintro ⟨N, I, hForm, hNumbers⟩
      have hEnds := hForm.mtclOptions
      cases hResult : mtclOptions options with
      | error e => exact absurd ⟨_, _, hNumbers⟩ (hEnds.failure hResult).1
      | ok r' =>
        obtain ⟨hProtocol, hNumbers'⟩ := hEnds.result hResult
        exact congrArg Except.ok (hNumbers'.unique hProtocol hNumbers)
  · by_cases hForm : ∃ P N I, Form options P N I
    · obtain ⟨P, N, I, hForm⟩ := hForm
      exact (hForm.mtclOptions.failure hError).2
    · exact (mtclOptions_of_no_form hForm).failure hError
  · intro colon atSign hPositions
    obtain ⟨P, N, I, hForm, rfl, rfl⟩ := mtclPositions_eq_some_iff.mp hPositions
    have hLength := congrArg List.length hForm.text
    simp only [List.length_append, List.length_cons] at hLength
    omega

theorem mtcl_options_accepted_tcp :
    backendOptions "mtcl".toList "TCP:7601@50".toList = .ok ⟨"TCP".toList, 7601, 50⟩ :=
  ((mtcl_options_accepted_iff (by decide)).1 ⟨"TCP".toList, 7601, 50⟩).mpr
    ⟨"7601".toList, "50".toList, by constructor <;> decide, by
      refine ⟨?_, by decide, ?_, by decide, by decide⟩ <;> decide +kernel⟩

end Capio.Server.RuntimeConfiguration
