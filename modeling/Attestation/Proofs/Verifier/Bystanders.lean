import Attestation.Proofs.Verifier.ArrayEdits
import Attestation.Proofs.Verifier.Scripts
import Attestation.Proofs.Verifier.Wiring

/-!
# Other verifiers of an app module

Wiring a verifier, or taking it out, leaves the other verifiers of the app module in it: the
new import block imports the same from their files (`provides_keep_iff`), and their classes
stay in both arrays (`sameListing_editArrays`).

* `SameListing`: an array lists a class in a text exactly when it lists it in another one.
* `StaysWired`: what an app module still says of a verifier while another one is wired.

## Design notes

A verifier is said to stay wired by comparison with the text before, and not by an absolute
description: the module may have been edited by hand, and what was not there need not be there
afterwards.
-/

namespace Attestation.Verifier

open Text ArrayLiteral ImportBlock FileTree Attestation.Path

/-! ## Classes in arrays -/

/-- When the array of a text can be read, so can that of the other text, and both or neither
list the class. -/
def SameListing (name className : String) (before after : List Char) : Prop :=
  ∀ a, extract (.array name) before = .ok a →
    ∃ b, extract (.array name) after = .ok b ∧ (className ∈ b.entries ↔ className ∈ a.entries)

section Listing

variable {name n m c e p : String} {x : Bool} {t u v : List Char}

theorem SameListing.trans (h : SameListing name e t u) (h' : SameListing name e u v) :
    SameListing name e t v := by
  intro a ha
  obtain ⟨b, hb, first⟩ := h a ha
  obtain ⟨d, hd, second⟩ := h' b hb
  exact ⟨d, hd, second.trans first⟩

theorem mem_edit_iff {clear : Bool} {entries : List String} (h : e ≠ c) :
    e ∈ edit clear c entries ↔ e ∈ entries := by
  unfold edit
  cases clear <;> simp [h]

/-- An edit of an array leaves its other classes there. -/
theorem sameListing_wireArray (hname : IsArrayName name) (hc : IsAlphanum c) (h : e ≠ c)
    (hu : wireArray name c x t = .ok u) : SameListing name e t u := by
  intro a ha
  obtain ⟨-, opens, reads⟩ := (extract_eq_ok_iff hname.unbracketed).mp ha
  rw [wireArray_of_extract ha, Except.ok.injEq] at hu
  refine ⟨⟨a.before, (join ", " (edit x c a.entries)).toList, a.after, edit x c a.entries⟩, ?_,
    mem_edit_iff h⟩
  exact (extract_eq_ok_iff hname.unbracketed).mpr ⟨hu.symm, opens,
    reads_join (isEntry_edit hc reads)⟩

/-- An edit of an array leaves the classes of the other array there. -/
theorem sameListing_wireArray_other (hn : IsArrayName n) (hm : IsArrayName m)
    (distinct : Distinct n m)
    (he : IsAlphanum e) (hp : IsAlphanum p) (hu : wireArray m p x t = .ok u) :
    SameListing n e t u := by
  intro a ha
  obtain ⟨b, hb, -⟩ := wireArray_eq_ok_iff.mp hu
  obtain ⟨-, -, readsA⟩ := (extract_eq_ok_iff hn.unbracketed).mp ha
  obtain ⟨-, -, readsB⟩ := (extract_eq_ok_iff hm.unbracketed).mp hb
  have edited := reads_join (isEntry_edit (x := x) hp readsB)
  rcases distinct.apart_or_nested hn hm ha hb with (apart | apart) | ⟨f, fits, rfl⟩ |
    ⟨f, fits, rfl⟩
  · obtain ⟨f, fits, rfl, -, -, -, quiet⟩ := exists_frame hm hn ha hb apart
    rw [wireArray_second fits hm quiet readsB, Except.ok.injEq] at hu
    subst hu
    exact ⟨_, Frame.extract_first (u := []) hn fits (neutral_nil n) readsA, Iff.rfl⟩
  · obtain ⟨f, fits, rfl, -, -, -, quiet⟩ := exists_frame hn hm hb ha apart
    rw [wireArray_first fits hm a.inner readsB, Except.ok.injEq] at hu
    subst hu
    have still : ¬ Occurs n (join ", " (edit x p b.entries)).toList :=
      not_occurs_edit hn hp readsB quiet
    exact ⟨_, Frame.extract_second (u := []) hn fits (neutral_nil n) still readsA, Iff.rfl⟩
  · -- The array lies in an object, which is no class.
    have noClass : ∀ z, e ≠ f.object z := by
      rintro z rfl
      exact he.ne_of_mem (c := '\x7b') (by simp [Nest.object]) (by decide) rfl
    rw [wireArray_inner fits hm readsB, Except.ok.injEq] at hu
    have whole := ha
    rw [Nest.extract_outer hn fits readsB.balanced, Except.ok.injEq] at whole
    subst hu whole
    exact ⟨_, Nest.extract_outer hn fits edited.balanced, by simp [noClass]⟩
  · rw [wireArray_outer fits hm hp readsA.balanced, Except.ok.injEq] at hu
    subst hu
    exact ⟨_, Nest.extract_inner hn (fits_relist fits hn hp readsA.balanced) readsA, Iff.rfl⟩

end Listing

/-- **Editing both arrays** leaves the classes of another verifier in them. -/
theorem sameListing_editArrays {n n' : Names} {x : Bool} {t u : List Char}
    (hc : IsAlphanum n.controllerClass)
    (hp : IsAlphanum n.serviceClass) (hc' : IsAlphanum n'.controllerClass)
    (hp' : IsAlphanum n'.serviceClass)
    (controllers : n'.controllerClass ≠ n.controllerClass)
    (services : n'.serviceClass ≠ n.serviceClass)
    (hu : editArrays n x t = .ok u) :
    SameListing "controllers" n'.controllerClass t u ∧
    SameListing "providers" n'.serviceClass t u := by
  obtain ⟨v, hv, hu⟩ := editArrays_eq_ok_iff.mp hu
  constructor
  · exact (sameListing_wireArray isArrayName_controllers hc controllers hv).trans
      (sameListing_wireArray_other isArrayName_controllers isArrayName_providers
        distinct_arrayNames hc' hp hu)
  · exact (sameListing_wireArray_other isArrayName_providers isArrayName_controllers
      distinct_arrayNames.symm hp' hc hv).trans
      (sameListing_wireArray isArrayName_providers hp services hu)

/-- An array behind a text that is replaced lists the same. -/
theorem sameListing_append {name e : String} (hname : name ∈ arrayNames)
    {u u' back : List Char}
    (neutral : Neutral name u')
    (behind : ∀ cut ∈ (Anchor.array name).cut (u ++ back), u <+: cut.1) :
    SameListing name e (u ++ back) (u' ++ back) := by
  intro a ha
  obtain ⟨p, hp, w, hw, ends⟩ := exists_lead hname ha behind
  obtain ⟨text, opens, reads⟩ := (extract_eq_ok_iff (isArrayName hname).unbracketed).mp ha
  have rest : back = p ++ '[' :: a.inner ++ ']' :: a.after := by
    refine (List.append_right_inj u).mp ?_
    rw [text, hp]
    simp
  have first : ¬ Occurs name p :=
    fun ho => opens.first (ho.mono (hp ▸ (List.suffix_append u p).isInfix))
  refine ⟨⟨u' ++ p, a.inner, a.after, a.entries⟩,
    (extract_eq_ok_iff (isArrayName hname).unbracketed).mpr
    ⟨?_, Opens.append neutral ⟨⟨w, hw, ends⟩, first⟩, reads⟩, Iff.rfl⟩
  rw [rest]
  simp

/-! ## Imports of other files -/

section Imports

variable {here : Path} {o : Options} {n : Names} {clear : Bool} {imports merged : List Import}
  {module : String}

/-- **The new block imports the same** from a file that does not belong to the verifier. -/
theorem provides_keep_iff (hm : mergeImports (own here o n ++ imports) = .ok merged)
    (other : ∀ i ∈ own here o n, i.module ≠ module) (item : Import.Item) :
    Provides (keep here o n clear merged) module item ↔ Provides imports module item := by
  have same : Provides merged module item ↔ Provides imports module item := by
    rw [(mergeImports_eq_ok_iff.mp hm).2 module item, provides_append, or_iff_right]
    rintro ⟨i, hi, named, -⟩
    exact other i hi named
  cases clear with
  | false => rw [keep_false, same]
  | true =>
      have kept : ((own here o n).all fun j => j.module ≠ module) = true :=
        List.all_eq_true.mpr fun i hi => decide_eq_true (other i hi)
      rw [keep_true, ← same]
      exact (provides_filter (p := fun module => (own here o n).all fun j =>
        j.module ≠ module)).trans
        (and_iff_right kept)

end Imports

/-! ## Wiring -/

/-- What a text says of a verifier is what it said before: the import lines import the same
from its files, and both arrays list its class if they did.  It is asked of what is written, so
that a line that is not read back counts as well. -/
structure StaysWired (here : Path) (o : Options) (n : Names) (before after : List Char) :
    Prop where
  imports : ∃ front kept rest, (ofText before).front = some front ∧
    after = front ++ importLines kept ++ rest ∧
    ∀ i ∈ own here o n, ∀ item, Provides kept i.module item ↔
    Provides (ofText before).imports i.module item
  controllers : SameListing "controllers" n.controllerClass before after
  providers : SameListing "providers" n.serviceClass before after

section Wire

variable {here : Path} {o : Options} {n n' : Names} {clear : Bool} {content wired : List Char}

/-- **Wiring leaves another verifier as it is** when the two have neither files nor classes in
common. -/
theorem staysWired_of_wire (hc : IsAlphanum n.controllerClass) (hp : IsAlphanum n.serviceClass)
    (hc' : IsAlphanum n'.controllerClass) (hp' : IsAlphanum n'.serviceClass)
    (controllers : n'.controllerClass ≠ n.controllerClass)
    (services : n'.serviceClass ≠ n.serviceClass)
    (modules : ∀ i ∈ own here o n, ∀ j ∈ own here o n', i.module ≠ j.module)
    (still : ∀ i ∈ own here o n, ∀ name ∈ arrayNames, ¬ Occurs name i.module.toList)
    (behind : ArraysBehind content)
    (imported : ∃ i ∈ (ofText content).imports, ∃ j ∈ own here o n', i.module = j.module)
    (hw : wire here o n clear content = .ok wired) : StaysWired here o n' content wired := by
  obtain ⟨merged, middle, hm, first, second⟩ := wire_eq_ok_iff.mp hw
  obtain ⟨i, hi, j, hj, named⟩ := imported
  have same : ∀ j ∈ own here o n', ∀ item, Provides (keep here o n clear merged) j.module item
      ↔ Provides (ofText content).imports j.module item :=
    fun j hj => provides_keep_iff hm fun i hi => modules i hi j hj
  have kept : keep here o n clear merged ≠ [] := by
    obtain ⟨k, hk, -⟩ := (same j hj .module).mpr ⟨i, hi, named, trivial⟩
    exact List.ne_nil_of_mem hk
  obtain ⟨p, hp₀, -⟩ := List.mem_map.mp hi
  obtain ⟨q, more, found⟩ := List.exists_cons_of_ne_nil (List.ne_nil_of_mem hp₀)
  have front : (ofText content).front = some q.before := by rw [ImportBlock.front, found]; rfl
  have text : content = (ofText content).upTo ++ (ofText content).back := by
    rw [upTo_append_back, text_ofText]
  -- The arrays stand behind the block, so the edits only see the text there.
  have behindUpTo : ∀ name ∈ arrayNames,
      ∀ cut ∈ (Anchor.array name).cut ((ofText content).upTo ++ (ofText content).back),
      (ofText content).upTo <+: cut.1 := by
    rw [← text]
    exact behind
  have neutral : ∀ name ∈ arrayNames,
    Neutral name (q.before ++ importLines (keep here o n clear merged)) := by
    have block := neutral_block (quiet_own hc hp still) behind hm kept
    rwa [front] at block
  have edited : editArrays n clear
      (q.before ++ importLines (keep here o n clear merged) ++ (ofText content).back)
      = .ok wired := by
    have spliced : (ofText content).splice (importLines (keep here o n clear merged))
        = q.before ++ importLines (keep here o n clear merged) ++ (ofText content).back := by
      rw [ImportBlock.splice, front]
    rw [← spliced]
    exact editArrays_eq_ok_iff.mpr ⟨middle, first, second⟩
  obtain ⟨rest, -, shape⟩ := (editArrays_append_eq_ok_iff neutral).mp edited
  have replaced : ∀ name ∈ arrayNames, ∀ e, SameListing name e content
      (q.before ++ importLines (keep here o n clear merged) ++ (ofText content).back) := by
    intro name hname e
    have replaced := sameListing_append (e := e) hname (neutral name hname)
      (behindUpTo name hname)
    rwa [← text] at replaced
  obtain ⟨listed, provided⟩ := sameListing_editArrays hc hp hc' hp' controllers services edited
  exact ⟨⟨_, _, rest, front, shape, same⟩, (replaced "controllers" (by decide) _).trans listed,
    (replaced "providers" (by decide) _).trans provided⟩

end Wire

end Attestation.Verifier
