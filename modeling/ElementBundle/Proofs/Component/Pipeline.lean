import ElementBundle.Component.Pipeline
import ElementBundle.Proofs.Source.Lexer
import ElementBundle.Proofs.Source.Lossless

/-! # One pipeline for all files

What a pipeline makes of a file is what `compile` makes of it, whatever the files
before it have left in the registers of its lexers.
-/

namespace ElementBundle.Component

open ElementBundle.Source ElementBundle.Markup

section
variable (x : Extractor) (script : List Char)

theorem exists_scan_plain (source : List Char) : ∃ r, scan source false = .ok r := by
  obtain ⟨ts, final, hreads⟩ := exists_reads_plain .code source
  exact ⟨⟨ts, { mode := final }⟩, scan_eq_ok_iff.2 ⟨final, hreads, rfl⟩⟩

theorem Extractor.codeRuns_eq :
    ∃ lexer, x.codeRuns script = (.ok (Component.codeRuns script), ⟨lexer⟩) ∧
      ∀ offset, lexer.lineAt offset = lineAt script offset := by
  obtain ⟨r, hscan⟩ := exists_scan_plain script
  have htokens := x.lexer.tokenize_fst script false
  rw [hscan] at htokens
  refine ⟨(x.lexer.tokenize script false).2, ?_, x.lexer.lineAt_tokenize script false⟩
  unfold Extractor.codeRuns Component.codeRuns plainTokens
  rw [hscan]
  generalize x.lexer.tokenize script false = out at htokens
  obtain ⟨outcome, lexer⟩ := out
  cases htokens
  rfl

theorem Extractor.start_fst :
    (x.start script).1 = (start? script).elim (.error .noComponent) .ok := by
  obtain ⟨lexer, hruns, -⟩ := x.codeRuns_eq script
  unfold Extractor.start start?
  rw [hruns]
  dsimp only
  cases firstClass? (Component.codeRuns script) <;> rfl

theorem Extractor.stop_fst (start : Int) : (x.stop script start).1 = bodyStop script start := by
  obtain ⟨lexer, hruns, hline⟩ := x.codeRuns_eq script
  unfold Extractor.stop bodyStop codeChars
  rw [hruns]
  dsimp only
  rw [hline]
  cases bodyEnd? (charsOf (Component.codeRuns script)) start <;> rfl

theorem Extractor.locate_fst : (x.locate script).1 = Component.locate script := by
  have hstart := x.start_fst script
  unfold Extractor.locate Component.locate
  generalize x.start script = out at hstart
  obtain ⟨outcome, x'⟩ := out
  cases hclass : start? script with
  | none =>
      rw [hclass] at hstart
      cases hstart
      rfl
  | some start =>
      rw [hclass] at hstart
      cases hstart
      have hstop := x'.stop_fst script start
      dsimp only
      rw [← hstop]
      generalize x'.stop script start = out
      obtain ⟨outcome, x''⟩ := out
      cases outcome <;> rfl

end

/-- No file that a pipeline has gone through influences the next one. -/
theorem Pipeline.compile_fst (p : Pipeline) (renderer : Renderer) (source : List Char)
    (tag : Option (List Char)) :
    (p.compile renderer source tag).1 = Component.compile renderer source tag := by
  have htokens := p.lexer.tokenize_fst source true
  unfold Pipeline.compile Component.compile
  generalize p.lexer.tokenize source true = out at htokens
  obtain ⟨outcome, lexer⟩ := out
  cases hscan : scan source with
  | error f =>
      rw [hscan] at htokens
      cases htokens
      rfl
  | ok r =>
      rw [hscan] at htokens
      cases htokens
      have hplaced : (place r.tokens).map (·.token) = r.tokens := map_token_placeFrom 0 1 r.tokens
      have hlocate := p.extractor.locate_fst (renderer.tokens r.tokens)
      dsimp only
      rw [hplaced, ← hlocate]
      generalize p.extractor.locate (renderer.tokens r.tokens) = out
      obtain ⟨outcome, extractor⟩ := out
      cases outcome <;> rfl

theorem Pipeline.run_fst (p : Pipeline) (renderer : Renderer) (file : Option String)
    (source : List Char) (tag : Option (List Char)) :
    (p.run renderer file source tag).1 = compileFile renderer file source tag := by
  unfold Pipeline.run compileFile
  rw [← p.compile_fst renderer source tag]

end ElementBundle.Component
