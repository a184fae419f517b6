import DeployManifest.Proofs.AnchoredDocuments
import DeployManifest.Proofs.PrintedMarks

/-!
# Trees whose anchors are transparent

Anchors are transparent for a tree if nothing in its texts looks like the mark of one of its long strings, if the
keys that can be given anchors have no tags, and if no two strings share a digest
(`isTransparent_of_holdsNoMarks`).  The marks in the printed tree are all turned then, and nothing else is, so
that the canonical text is the one of a piece with anchors, which has the tree of the plain text.

- `exists_document_putInAll`: the document that the canonical text is read as.
- `readsAs_canonical_shared`: a tree with an anchor and a reference.
-/

namespace DeployManifest.Yaml.Value

open Anchors (digest? isDigest AreProper)
open DeployManifest.Yaml.Piece (ofValue)

variable {t v : Value} {text : String}

/-- Digests and keys of anchors are what they look like. -/
theorem isInvariant_areProper : IsInvariant AreProper := by
  intro anchors key v digest long proper
  have marks := marksLong_markLong anchors key v digest
  generalize Anchors.markLong anchors key v digest = result at marks ⊢
  cases marks with
  | refers | keeps => exact proper
  | defines _ _ isKey =>
    intro e mem
    rcases Table.mem_insertEntry mem with rfl | mem
    · exact ⟨isDigest_of_digest? long, isKey⟩
    · exact proper e mem

/-- Whether a string is one of the long strings of a tree. -/
def HasLongString (t : Value) (s : String) : Prop := t.HasString s ∧ digest? (.string s) ≠ none

/-- In the printed tree nothing looks like a mark of its long strings. -/
theorem HoldsNoMarks.not_holdsMark_render (quiet : t.HoldsNoMarks) {s : String} (long : t.HasLongString s) :
    ¬ Anchors.HoldsMark (Digest.ofText s) t.render.toList := by
  obtain ⟨digest, is⟩ := Option.ne_none_iff_exists'.mp long.2
  obtain rfl := digest?_string_eq_some is
  exact quiet.not_holdsMark long.1 is

/-- The long strings of the tree are those that get anchors. -/
theorem HoldsNoMarks.isCounted (quiet : t.HoldsNoMarks) : Piece.IsCounted t.HasLongString t := by
  refine fun s has => ⟨fun long => ⟨has, long⟩, ?_⟩
  rintro name text ⟨has_text, long⟩ rfl
  obtain ⟨digest, is⟩ := Option.ne_none_iff_exists'.mp long
  obtain rfl := digest?_string_eq_some is
  exact quiet text _ has_text is _ has.mem_texts (.inr ⟨name.toList, [], by simp⟩)

/-- A tree is printed as its piece is written. -/
theorem render_eq_text (printable : t.isPrintable .free = true) :
    t.render = String.ofList ((ofValue none t).text .start 0) := by
  have text : (ofValue none t).text .start 0 = t.node .start false 0 :=
    Piece.text_ofValue .start 0 t printable nofun
  rw [render, text]

/-- A document with anchors has the tree of the plain document. -/
theorem exists_document_putInAll (quiet : t.HoldsNoMarks) (apart : t.HasDistinctDigests)
    (distinct : t.HasDistinctKeys) (bare : t.HasBareAnchorKeys) (printable : t.isPrintable .free = true)
    (legible : (ofValue none t).IsLegible) (printed : (t.mark .empty).1.print? = some text)
    (number : String → Nat) :
    ∃ document, View.ofSource? (.ofString ((t.mark .empty).2.putInAll text)) = some (.ofDocument document) ∧
      Node.SameTree document.anchors document.root ((ofValue none t).node number) := by
  obtain ⟨marked_printable, rfl⟩ := Option.ite_none_right_eq_some.mp printed |>.imp_right Option.some.inj
  obtain ⟨put, anchored⟩ : ∃ put, Piece.Anchored t.HasLongString .empty (ofValue none t)
      (ofValue none (t.mark .empty).1) put (t.mark .empty).2 :=
    Piece.exists_anchored t Piece.isNoAnchor_none quiet.isCounted distinct bare
  -- every anchor is one of a long string, so the plain text holds no mark for it
  have silent : ∀ digest ∈ (t.mark .empty).2.keys,
      ¬ Anchors.HoldsMark digest ((ofValue none t).text .start 0) := by
    obtain ⟨texts, defines, -, -⟩ := anchored.puts number
    intro digest known
    obtain ⟨s, mem, rfl⟩ := List.mem_map.mp (((defines.mem_keys_iff digest).mp known).resolve_left nofun)
    have quiet := quiet.not_holdsMark_render (defines.long s mem)
    rwa [render_eq_text printable, String.toList_ofList] at quiet
  have turns : (t.mark .empty).2.Turns ((ofValue none t).text .start 0)
      ((ofValue none (t.mark .empty).1).text .start 0) (put.text .start 0) :=
    anchored.turns (fun _ _ bound => bound) .start 0 [] fun _ => .nil
  have proper : AreProper (t.mark .empty).2 := isInvariant_areProper.mark t nofun
  obtain ⟨document, read, calm, same⟩ := anchored.ofTokens? legible fun s u long long' =>
    apart s u long.1 long'.1
  refine ⟨document, ?_, same⟩
  rw [render_eq_text marked_printable, turns.putInAll proper silent, View.ofSource?, View.ofSourceWithin?,
    Document.ofSource?, (Piece.tokens?_text put).1 (anchored.isLegible legible), Option.bind_some, read]
  simp [Option.filter, calm]

/-- Anchors are transparent for a tree in which nothing looks like a mark. -/
theorem isTransparent_of_holdsNoMarks (quiet : v.sorted.HoldsNoMarks) (apart : v.sorted.HasDistinctDigests)
    (bare : v.sorted.HasBareAnchorKeys) : v.IsTransparent := by
  rintro plain plain_printed ⟨w, read, same⟩ text canonical
  obtain ⟨printable, rfl⟩ := Option.ite_none_right_eq_some.mp plain_printed |>.imp_right Option.some.inj
  -- what is printed without anchors can be read, by assumption
  have legible : (ofValue none v.sorted).IsLegible := by
    by_contra illegible
    have unread := (Piece.tokens?_text (ofValue none v.sorted)).2 illegible
    rw [render_eq_text printable, View.ofSource?, View.ofSourceWithin?, Document.ofSource?, unread] at read
    cases read
  obtain ⟨marked, printed, rfl⟩ := Option.map_eq_some_iff.mp canonical
  -- with anchors the document stands for the same tree
  obtain ⟨document, source, same_tree⟩ := exists_document_putInAll quiet apart (hasDistinctKeys_sorted v) bare
    printable legible printed fun _ => 0
  refine ⟨w, ?_, same⟩
  rw [View.ofSource?, View.ofSourceWithin?_render printable legible fun _ => 0] at read
  rw [source, ← read]
  exact same_tree _

/-- The second of two equal strings is a reference, and the text is read as the tree that it is the text of. -/
theorem readsAs_canonical_shared :
    (sharedText.sorted.HoldsNoMarks ∧ sharedText.sorted.HasDistinctDigests ∧
      sharedText.sorted.HasBareAnchorKeys) ∧
    sharedText.canonical? = some ("a: &" ++ longDigest ++ " " ++ longText ++ "\nb:\n- c: *" ++ longDigest ++ "\n") ∧
      ReadsAs ("a: &" ++ longDigest ++ " " ++ longText ++ "\nb:\n- c: *" ++ longDigest ++ "\n") sharedText := by
  have sorted : sharedText.sorted = sharedText := by decide +kernel
  have plain : sharedText.sorted.print? =
      some ("a: " ++ longText ++ "\nb:\n- c: " ++ longText ++ "\n") := by decide +kernel
  have plain_read : (View.ofSource? (.ofString ("a: " ++ longText ++ "\nb:\n- c: " ++ longText ++ "\n"))).bind
      View.value? = some sharedText := by decide +kernel
  have canonical : sharedText.canonical? =
      some ("a: &" ++ longDigest ++ " " ++ longText ++ "\nb:\n- c: *" ++ longDigest ++ "\n") := by decide +kernel
  have quiet : sharedText.sorted.HoldsNoMarks := by
    rw [sorted]
    have all : ∀ s ∈ ["a", "b", "c", longText], ∀ digest ∈ digest? (.string s), ∀ text ∈ sharedText.texts,
        ¬ Anchors.HoldsMark digest text.toList := by decide +kernel
    exact fun s digest has long => all s (hasString_sharedText has) digest long
  have apart : sharedText.sorted.HasDistinctDigests := sorted.symm ▸ hasDistinctDigests_sharedText
  have bare : sharedText.sorted.HasBareAnchorKeys := sorted.symm ▸ hasBareAnchorKeys_sharedText
  exact ⟨⟨quiet, apart, bare⟩, canonical, isTransparent_of_holdsNoMarks quiet apart bare _ plain
    ⟨sharedText, plain_read, by decide +kernel⟩ _ canonical⟩

end DeployManifest.Yaml.Value
