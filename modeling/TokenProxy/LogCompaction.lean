/-
  TokenProxy/LogCompaction.lean
  =============================
  **Compacting logs** (`_compress_logs`, `g19_headroom.py`).

  A line is stripped and cut at a length, and dropped when an earlier line was the same up to
  timestamps.  A line with a severity that is always kept is never dropped, but it is stripped
  and cut like any other.

  Main results: `logs_compacted`, what is kept and what is left out, and `not_logs_verbatim`, a
  long error does not come through as it was.
-/
import TokenProxy.CcrTenants
import TokenProxy.JoinedLists
import TokenProxy.SecretPatterns
import TokenProxy.TextReplace

namespace TokenProxy.Logs

open TokenProxy.Ccr (stripBy stripBy_spec)
open TokenProxy.KeyStore (isSpace)
open TokenProxy.SubScan

abbrev Line := List Char

/-! ## 1. Lines -/

/-- What the patterns read of the character tables. -/
structure Tables extends Redaction.Tables where
  /-- `\d` -/
  isDecimal : Char → Bool
  /-- the same letter where case is ignored -/
  sameLetter : Char → Char → Bool

structure LogStrategy where
  truncateLongLines : Int := 200
  dedupeLines : Bool := true
  alwaysKeepSeverities : List (List Char) :=
    ["ERROR".toList, "FATAL".toList, "CRITICAL".toList, "PANIC".toList]

variable (py : Tables) (st : LogStrategy)

/-- `line.strip()` -/
def strip (line : Line) : Line := stripBy isSpace line

/-- `s[:k]` -/
def upTo (k : Int) (s : Line) : Line := s.take (if 0 ≤ k then k else s.length + k).toNat

/-- A text begins with characters of these kinds. -/
def shapedAt (shape : List (Char → Bool)) (s : Line) : Bool :=
  decide (shape.length ≤ s.length) && (shape.zip s).all fun place => place.1 place.2

/-- `\b(?:…)\b` at a place. -/
def severityAt (prev : Option Char) (s : Line) : Bool :=
  st.alwaysKeepSeverities.any fun severity =>
    py.boundary prev s.head? && shapedAt (severity.map py.sameLetter) s &&
      py.boundary (lastOr prev (s.take severity.length)) (s.drop severity.length).head?

def searchFrom : Option Char → Line → Bool
  | prev, [] => severityAt py st prev []
  | prev, c :: cs => severityAt py st prev (c :: cs) || searchFrom (some c) cs

/-- `always_keep_re.search(stripped)` -/
def isHighSeverity (line : Line) : Bool := searchFrom py st none (strip line)

/-- `\d{4}-\d{2}-\d{2}[T ]\d{2}:\d{2}:\d{2}` -/
def timestampShape : List (Char → Bool) :=
  let d := py.isDecimal
  let two := [d, d]
  two ++ two ++ [(· == '-')] ++ two ++ [(· == '-')] ++ two ++ [fun c => c = 'T' || c = ' '] ++
    two ++ [(· == ':')] ++ two ++ [(· == ':')] ++ two

/-- The same with `[\.\d]*` behind it. -/
def timestamp : Pattern Char := fun _ s =>
  if shapedAt (timestampShape py) s then
    let behind := s.drop (timestampShape py).length
    some (0, (timestampShape py).length +
      (behind.takeWhile fun c => c = '.' || py.isDecimal c).length)
  else none

/-- The line with a mark for each timestamp. -/
def normalise (line : Line) : Line := sub (timestamp py) "<TS>".toList line

def truncate (stripped : Line) : Line :=
  if st.truncateLongLines < stripped.length then
    upTo st.truncateLongLines stripped ++ "...[truncated]".toList
  else stripped

/-- What a line is compacted to, where it is kept. -/
def compacted (line : Line) : Line := truncate st (strip line)

/-! ## 2. The text -/

abbrev Patterns := List (Line × Nat)

/-- The loop of `_compress_logs`: the result, and how often each pattern was seen. -/
def compressLines (seen : Patterns) : List Line → List Line × Patterns
  | [] => ([], seen)
  | line :: rest =>
    if strip line = [] then compressLines seen rest
    else if st.dedupeLines && !isHighSeverity py st line then
      let normalised := normalise py (compacted st line)
      match Assoc.lookup normalised seen with
      | some count => compressLines (Assoc.insert normalised (count + 1) seen) rest
      | none =>
        let (result, seen') := compressLines (Assoc.insert normalised 1 seen) rest
        (compacted st line :: result, seen')
    else
      let (result, seen') := compressLines seen rest
      (compacted st line :: result, seen')

def footer (seen : Patterns) : List Line :=
  let dedupedCount := seen.countP fun pattern => decide (1 < pattern.2)
  if st.dedupeLines && decide (0 < dedupedCount) then
    ["[".toList ++ (toString dedupedCount).toList ++
      " duplicate log patterns suppressed]".toList]
  else []

/-- `_compress_logs` -/
def compressLogs (text : List Char) : List Char :=
  let (result, seen) := compressLines py st [] (text.splitOn '\n')
  ['\n'].intercalate (result ++ footer st seen)

def outputLines (text : List Char) : List Line := (compressLogs py st text).splitOn '\n'

/-- The lines of an always-keep severity come through as they are and in order, and a line that
    does not come through is the same as one that does, up to timestamps. -/
def Verbatim (text : List Char) : Prop :=
  ((text.splitOn '\n').filter (isHighSeverity py st)).Sublist (outputLines py st text) ∧
    ∀ line ∈ text.splitOn '\n', ∃ kept ∈ outputLines py st text,
      normalise py kept = normalise py line

/-! ## 3. The loop -/

/-- Which lines a loop keeps. -/
structure Chosen (seen : Patterns) (lines chosen : List Line) : Prop where
  sublist : chosen.Sublist lines
  severe : chosen.filter (isHighSeverity py st) = lines.filter (isHighSeverity py st)
  left_out : ∀ line ∈ lines, strip line = [] ∨
    (Assoc.lookup (normalise py (compacted st line)) seen).isSome ∨
    ∃ kept ∈ chosen, normalise py (compacted st kept) = normalise py (compacted st line)

variable {py st}

/-- There is no severity in an empty text: it has no word boundary. -/
theorem not_isHighSeverity_of_blank {line : Line} (h : strip line = []) :
    isHighSeverity py st line = false := by
  rw [isHighSeverity, h, searchFrom, severityAt, List.any_eq_false]
  intro severity _
  simp [Redaction.Tables.boundary]

namespace Chosen

variable {seen : Patterns} {line : Line} {rest chosen : List Line}

/-- A line is passed over: it is blank, or its pattern has been seen. -/
theorem skip {seen' : Patterns} (h : Chosen py st seen' rest chosen)
    (hlow : isHighSeverity py st line = false)
    (hline : strip line = [] ∨
      (Assoc.lookup (normalise py (compacted st line)) seen).isSome)
    (hseen : ∀ pattern, (Assoc.lookup pattern seen').isSome →
      (Assoc.lookup pattern seen).isSome) :
    Chosen py st seen (line :: rest) chosen where
  sublist := h.sublist.cons line
  severe := by rw [h.severe, List.filter_cons_of_neg (by rw [hlow]; exact Bool.false_ne_true)]
  left_out := by
    intro other hother
    rcases List.mem_cons.mp hother with rfl | hother
    · exact hline.imp_right Or.inl
    · exact (h.left_out other hother).imp_right (Or.imp_left (hseen _))

/-- A line is kept, and no pattern seen but its own. -/
theorem keep {seen' : Patterns} (h : Chosen py st seen' rest chosen)
    (hseen : ∀ pattern, (Assoc.lookup pattern seen').isSome →
      (Assoc.lookup pattern seen).isSome ∨ pattern = normalise py (compacted st line)) :
    Chosen py st seen (line :: rest) (line :: chosen) where
  sublist := h.sublist.cons_cons line
  severe := by rw [List.filter_cons, List.filter_cons, h.severe]
  left_out := by
    intro other hother
    rcases List.mem_cons.mp hother with rfl | hother
    · exact Or.inr (Or.inr ⟨other, List.mem_cons_self, rfl⟩)
    · rcases h.left_out other hother with hblank | hlookup | ⟨kept, hkept, hsame⟩
      · exact Or.inl hblank
      · rcases hseen _ hlookup with hbefore | hown
        · exact Or.inr (Or.inl hbefore)
        · exact Or.inr (Or.inr ⟨line, List.mem_cons_self, hown.symm⟩)
      · exact Or.inr (Or.inr ⟨kept, List.mem_cons_of_mem line hkept, hsame⟩)

end Chosen

theorem exists_chosen (lines : List Line) (seen : Patterns) :
    ∃ chosen, (compressLines py st seen lines).1 = chosen.map (compacted st) ∧
      Chosen py st seen lines chosen := by
  induction lines generalizing seen with
  | nil => exact ⟨[], rfl, .slnil, rfl, fun line hline => by cases hline⟩
  | cons line rest ih =>
    rw [compressLines]
    split_ifs with hblank hdedupe
    · obtain ⟨chosen, hresult, hchosen⟩ := ih seen
      exact ⟨chosen, hresult, hchosen.skip (not_isHighSeverity_of_blank hblank) (Or.inl hblank)
        fun _ hlookup => hlookup⟩
    · have hlow : isHighSeverity py st line = false := by
        rw [Bool.and_eq_true, Bool.not_eq_true'] at hdedupe
        exact hdedupe.2
      dsimp only
      cases hlookup : Assoc.lookup (normalise py (compacted st line)) seen with
      | some count =>
        obtain ⟨chosen, hresult, hchosen⟩ :=
          ih (Assoc.insert (normalise py (compacted st line)) (count + 1) seen)
        refine ⟨chosen, hresult, hchosen.skip hlow (Or.inr (by rw [hlookup]; rfl)) ?_⟩
        intro pattern hpattern
        rw [Assoc.lookup_insert] at hpattern
        split at hpattern
        · next heq =>
          rw [heq, hlookup]
          rfl
        · exact hpattern
      | none =>
        obtain ⟨chosen, hresult, hchosen⟩ :=
          ih (Assoc.insert (normalise py (compacted st line)) 1 seen)
        refine ⟨line :: chosen, congrArg _ hresult, hchosen.keep ?_⟩
        intro pattern hpattern
        rw [Assoc.lookup_insert] at hpattern
        split at hpattern
        · next heq => exact Or.inr heq
        · exact Or.inl hpattern
    · obtain ⟨chosen, hresult, hchosen⟩ := ih seen
      exact ⟨line :: chosen, congrArg _ hresult, hchosen.keep fun _ hlookup => Or.inl hlookup⟩

/-! ## 4. The output -/

theorem newline_notMem_compacted {line : Line} (h : '\n' ∉ line) : '\n' ∉ compacted st line := by
  have hstrip : '\n' ∉ strip line := by
    intro hmem
    obtain ⟨lead, trail, hline, -⟩ := stripBy_spec isSpace line
    rw [hline] at h
    exact h (List.mem_append_left _ (List.mem_append_right _ hmem))
  rw [compacted, truncate]
  split
  · rw [List.mem_append, not_or]
    exact ⟨fun hmem => hstrip (List.mem_of_mem_take hmem), by decide⟩
  · exact hstrip

theorem newline_notMem_footer {seen : Patterns} {line : Line} (h : line ∈ footer st seen) :
    '\n' ∉ line := by
  rw [footer] at h
  split at h
  · rw [List.mem_singleton.mp h, List.mem_append, List.mem_append, not_or, not_or]
    exact ⟨⟨by decide, TextReplace.notMem_digits (by decide) _⟩, by decide⟩
  · cases h

variable (py st)

/-- **Every line of an always-keep severity comes through in order, stripped and cut at the length;
    a line that is left out is blank or is compacted to the same as a kept one, up to
    timestamps.** -/
theorem logs_compacted (text : List Char) :
    ∃ chosen : List Line, chosen.Sublist (text.splitOn '\n') ∧
      chosen.map (compacted st) <+: outputLines py st text ∧
      chosen.filter (isHighSeverity py st) =
        (text.splitOn '\n').filter (isHighSeverity py st) ∧
      ∀ line ∈ text.splitOn '\n', strip line = [] ∨
        ∃ kept ∈ chosen, normalise py (compacted st kept) = normalise py (compacted st line) := by
  obtain ⟨chosen, hresult, hchosen⟩ := @exists_chosen py st (text.splitOn '\n') []
  refine ⟨chosen, hchosen.sublist, ?_, hchosen.severe, ?_⟩
  · have houtput : outputLines py st text =
        (['\n'].intercalate (chosen.map (compacted st) ++
          footer st (compressLines py st [] (text.splitOn '\n')).2)).splitOn '\n' := by
      rw [← hresult]
      rfl
    by_cases hne : chosen.map (compacted st) ++
        footer st (compressLines py st [] (text.splitOn '\n')).2 = []
    · rw [(List.append_eq_nil_iff.mp hne).1]
      exact List.nil_prefix
    · rw [houtput, List.splitOn_intercalate '\n' ?_ hne]
      · exact List.prefix_append _ _
      · intro line hline
        rcases List.mem_append.mp hline with hline | hline
        · obtain ⟨original, horiginal, rfl⟩ := List.mem_map.mp hline
          exact newline_notMem_compacted
            (Joined.notMem_of_mem_splitOn (hchosen.sublist.subset horiginal))
        · exact newline_notMem_footer hline
  · intro line hline
    rcases hchosen.left_out line hline with hblank | hlookup | hkept
    · exact Or.inl hblank
    · cases hlookup
    · exact Or.inr hkept

/-- The character tables as far as ASCII goes. -/
def ascii : Tables where
  toTables := Redaction.asciiTables
  isDecimal := Char.isDigit
  sameLetter := fun a b => decide (Redaction.fold a = Redaction.fold b)

/-- An error longer than the default length is cut. -/
theorem not_logs_verbatim : ¬ ∀ (py : Tables) (st : LogStrategy) (text : List Char),
    Verbatim py st text := by
  intro h
  have hverbatim := (h ascii {} ("ERROR ".toList ++ List.replicate 200 'x')).1
  exact absurd hverbatim (by decide +kernel)

end TokenProxy.Logs
