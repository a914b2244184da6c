import Attestation.Proofs.Script.ImportLines

/-!
# Statements on lines without a comment

A statement is found wherever its text stands, also behind a `//` on its line.

* `ImportBlock.live`: the statements in front of which no comment starts on their line.

Of lines that are put into a text all but the first start anew, so that only the first one can
end up behind a comment (`leads_lines`).

## Design notes

Whether a statement lives is told by what stands in front of it on its own line.  Two slashes
in a string count as well; so a statement may be called dead that is not, but never the other
way round, as far as comments to the end of a line go.
-/

namespace Attestation.ImportBlock

open Text

/-- The last line of a text. -/
def lastLine (cs : List Char) : List Char := (cs.reverse.takeWhile (· ≠ '\n')).reverse

/-- Whether a comment has been started.  Two slashes count wherever they stand, also within a
string. -/
def Commented (line : List Char) : Prop := "//".toList <:+: line

instance : DecidablePred Commented :=
  fun line => inferInstanceAs (Decidable ("//".toList <:+: line))

/-- Each statement with what stands in front of it on its line, where `u` is the text before
all of them. -/
def leads (u : List Char) : List PlacedImport → List (List Char × Import)
  | [] => []
  | p :: more =>
      (lastLine (u ++ p.before), p.statement) :: leads (u ++ p.before ++ p.source) more

/-- The statements of a text that are not commented out. -/
def live (cs : List Char) : List Import :=
  ((leads [] (ofText cs).found).filter fun p => ¬ Commented p.1).map Prod.snd

theorem not_commented_nil : ¬ Commented [] := by decide

@[simp] theorem lastLine_nil : lastLine [] = [] := rfl

@[simp] theorem lastLine_newline (u : List Char) : lastLine (u ++ ['\n']) = [] := by
  simp [lastLine]

theorem leads_prepend (u v : List Char) (b : ImportBlock) :
    leads u (b.prepend v).found = leads (u ++ v) b.found := by
  obtain ⟨found, rest⟩ := b
  cases found with
  | nil => rfl
  | cons p more => simp [prepend, leads]

theorem leads_of_nil {u cs : List Char} (h : Silent cs []) :
    leads u (ofText cs).found = [] := by
  rw [ofText_of_silent h]
  rfl

/-- The lines of a block: only in front of the first one there can be something else on the
line. -/
theorem leads_lines {i : Import} {more : List Import} (h : Readable (i :: more))
    (u : List Char) {v : List Char}
    (hv : Silent v []) :
    leads u (ofText (importLines (i :: more) ++ v)).found
      = (if i.Legible then [(lastLine u, i)] else []) ++ (more.filter fun i =>
        i.Legible).map fun i => ([], i) := by
  induction more generalizing i u with
  | nil =>
      have wf := h.wellFormed i (by simp)
      rw [importLines_singleton]
      rcases h.settled i (by simp) with legible | mute
      · obtain ⟨source, text⟩ := ofText_line wf legible v
        have nothing : Silent (';' :: v) [] := by
          rw [← List.singleton_append, silent_append]
          exact ⟨silent_of_not_mem (by decide) _, hv⟩
        rw [text, ofText_of_silent nothing, if_pos legible]
        simp [leads]
      · rw [ofText_append (silent_line wf mute v), leads_prepend, leads_of_nil hv,
          if_neg mute.illegible]
        rfl
  | cons j more ih =>
      have wf := h.wellFormed i (by simp)
      -- Behind its line break the next line starts anew.
      have next : ∀ w, leads (w ++ ['\n']) (ofText (importLines (j :: more) ++ v)).found
          = ((j :: more).filter fun i => i.Legible).map fun i => ([], i) := by
        intro w
        rw [ih h.of_cons, lastLine_newline]
        by_cases legible : j.Legible
        · simp [legible]
        · simp [legible]
      rw [importLines_cons_cons, List.append_assoc, List.cons_append]
      rcases h.settled i (by simp) with legible | mute
      · obtain ⟨source, text⟩ := ofText_line wf legible
          ('\n' :: (importLines (j :: more) ++ v))
        have behind : ofText (';' :: '\n' :: (importLines (j :: more) ++ v))
            = (ofText (importLines (j :: more) ++ v)).prepend [';', '\n'] :=
          ofText_append (u := [';', '\n']) (silent_of_not_mem (by decide) _)
        have line := next (u ++ source ++ [';'])
        rw [text, behind, if_pos legible, leads, leads_prepend, List.append_nil]
        rw [List.append_assoc, List.singleton_append] at line
        rw [line]
        rfl
      · have line := next (u ++ i.line)
        have silent : Silent (i.line ++ ['\n']) (importLines (j :: more) ++ v) := by
          rw [silent_append]
          exact ⟨silent_line wf mute _, silent_of_not_mem (by decide) _⟩
        have text : i.line ++ '\n' :: (importLines (j :: more) ++ v)
            = i.line ++ ['\n'] ++ (importLines (j :: more) ++ v) := by simp
        rw [text, ofText_append silent, leads_prepend, ← List.append_assoc, line,
          if_neg mute.illegible]
        rfl

/-- **What lives of a block that has been written**: all statements that can be read back, but
for the first when it is put behind a comment. -/
theorem live_lines {i : Import} {more : List Import} (h : Readable (i :: more))
    {u v : List Char} (hu : Calm u)
    (hv : Silent v []) :
    live (u ++ importLines (i :: more) ++ v)
      = (if Commented (lastLine u) then more else i :: more).filter fun i => i.Legible := by
  have others : ((((more.filter fun i => i.Legible).map fun i => (([] : List Char), i)).filter
      fun p => ¬ Commented p.1).map Prod.snd) = more.filter fun i => i.Legible := by
    generalize (more.filter fun i => i.Legible) = l
    induction l with
    | nil => rfl
    | cons i l ih => simpa [not_commented_nil] using ih
  have silent : Silent u (importLines (i :: more) ++ v) := by
    refine hu.silent fun c hc => ?_
    rw [head?_importLines (by simp), Option.mem_some_iff] at hc
    rw [← hc]
    decide
  rw [live, List.append_assoc, ofText_append silent, leads_prepend, List.nil_append,
    leads_lines h u hv,
    List.filter_append, List.map_append, others]
  by_cases legible : i.Legible <;> by_cases commented :
    Commented (lastLine u) <;> simp [legible, commented]

theorem map_snd_leads (u : List Char) (found : List PlacedImport) :
    (leads u found).map Prod.snd = found.map (·.statement) := by
  induction found generalizing u with
  | nil => rfl
  | cons p more ih => simp [leads, ih]

/-- When nothing is commented out, no comment stands in front of the first statement. -/
theorem not_commented_front {cs : List Char} (h : live cs = (ofText cs).imports) :
    ∀ front ∈ (ofText cs).front, ¬ Commented (lastLine front) := by
  intro front hfront
  have lengths := congrArg List.length h
  rw [live, imports, ← map_snd_leads [], List.length_map, List.length_map] at lengths
  have all := List.length_filter_eq_length_iff.mp lengths
  obtain ⟨p, hp, rfl⟩ := Option.map_eq_some_iff.mp hfront
  obtain ⟨more, found⟩ := List.head?_eq_some_iff.mp hp
  exact of_decide_eq_true (all (lastLine ([] ++ p.before), p.statement)
    (by rw [found]; simp [leads]))

end Attestation.ImportBlock
