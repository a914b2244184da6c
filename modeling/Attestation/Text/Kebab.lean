/-!
# Kebab case

`EVMTransaction` becomes `evm-transaction`. A run of capitals stays together, except that its
last capital starts a new group when a small letter follows it. Only ASCII letters have case
here.

## Main definitions

* `Text.capitalGroup`: how many of the capitals at the front of a text form one group.
* `Text.kebab`: the groups in small letters, with a hyphen in front of each group but a leading
  one.

## Design notes

The rule is told by groups because a group is what the reader of a name sees.  One character
alone does not show where a group ends, since the last capital of a run may begin the word
behind it.
-/

namespace Attestation.Text

/-- The size of the group of capitals at the front: the whole run, or all but its last capital
when that one begins a word of small letters. -/
def capitalGroup (cs : List Char) : Nat :=
  let run := (cs.takeWhile Char.isUpper).length
  if (cs.dropWhile Char.isUpper).head?.any Char.isLower then max 1 (run - 1) else run

theorem capitalGroup_pos {c : Char} (h : c.isUpper = true) (r : List Char) :
    0 < capitalGroup (c :: r) := by
  unfold capitalGroup
  simp only [List.takeWhile_cons, h, if_true, List.length_cons]
  split <;> omega

/-- The kebab form of what is left of a text; `first` tells whether nothing stands before
it. -/
def kebabFrom (first : Bool) (cs : List Char) : List Char :=
  match cs with
  | [] => []
  | c :: r =>
      if _h : c.isUpper = true then
        (if first then [] else ['-'])
          ++ ((c :: r).take (capitalGroup (c :: r))).map Char.toLower
          ++ kebabFrom false ((c :: r).drop (capitalGroup (c :: r)))
      else c :: kebabFrom false r
termination_by cs.length
decreasing_by
  · have := capitalGroup_pos _h r
    simp only [List.length_drop, List.length_cons]
    omega
  · simp

/-- A name in small letters, with a hyphen in front of each group of capitals but a leading
one. -/
def kebab (s : String) : String := String.ofList (kebabFrom true s.toList)

end Attestation.Text
