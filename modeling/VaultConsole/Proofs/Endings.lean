import VaultConsole.Proofs.Transcript

/-!
# How a console ends

The input of a console is bytes, of which not every line need be a text. `ofInput_bytes` says what a console that has
started makes of them: it shows and notices what it would for the lines that are heard, whatever they ask for, and
releases its engine. It fails exactly if the hearing stops at a line that is no text. Any other line lets it go on,
but for one whose script leaves the process, never comes back or takes from the input.
-/

namespace VaultConsole.Run

open Console

/-- **A console hears its input out.** Whatever bytes come in, a console that has started goes on until a line asks
for the end, the input is over, a line is no text or a script stops the hearing. It shows and notices what it would for
the texts that were heard, and unless a script has stopped it, it releases its engine; and it fails only for a line
that is no text. -/
theorem ofInput_bytes (s : Surroundings) {c : ConsoleConfig} (valid : s.validConfig = .ok c)
    (started : (Engine.new c.engine).start.result = .ok ()) (input : List UInt8) :
    let begun := (World.new (s.outside c.vault) c.engine).move .self .start
    ∃ texts ending,
      (∀ texts' ending', Hears begun.1 (Text.linesBy Text.newline input) texts' ending' ↔
        texts' = texts ∧ ending' = ending) ∧
      let made := calls texts
      let after := begun.1.run .self made
      let released := after.move .self .cleanup
      let run := ofInput s input
      run.output = (About.banner Lua.Library.languageVersion ++ "\n").toUTF8.toList ++ transcript begun.1 texts ++
        ending.lastPrompt ++ closing after ending ∧
      run.events = (LogEvent.opening c.vault.root :: begun.2.events ++
        (begun.1.replies .self made).flatMap (·.events) ++
        closingEvents after ending).filter (s.filter c.level).admits ∧
      run.exitCode? = ending.exitCode? ∧
      ((⟨begun.1.engine, begun.1.store, [], []⟩ : Dialogue).goOn
        ((Text.lines input).map Text.lineText)).1.release.world = released.1 ∧
      released.1.engine.session? = none := by
  intro begun
  obtain ⟨texts, ending, hears⟩ := Hears.exists_hears begun.1 (Text.linesBy Text.newline input)
  refine ⟨texts, ending, fun texts' ending' => ⟨fun hears' => hears'.unique hears, ?_⟩, ?_⟩
  · rintro ⟨rfl, rfl⟩
    exact hears
  intro made after released run
  obtain ⟨output, events, code⟩ := ofInput_heard s valid started hears
  have free : released.1 = World.new released.1.store after.engine.config := World.move_cleanup .self after
  have release (d : Dialogue) : d.release.world = (d.world.move .self .cleanup).1 := rfl
  refine ⟨output, events, code, ?_, congrArg (fun w => w.engine.session?) free⟩
  rw [release, world_goOn begun.1 hears]

/-- What comes after the line that asks for the end is not read, whether it is a text or not. -/
theorem ofInput_bytes_quit :
    let input := ":clear\n :q \n".toUTF8.toList ++ [0xFF, Text.newline]
    (Surroundings.bare.validConfig = .ok .standard ∧
      (Engine.new ConsoleConfig.standard.engine).start.result = .ok ()) ∧
    (ofInput .bare input).exitCode? = some 0 ∧
    (ofInput .bare input).output =
      [About.banner Lua.Library.languageVersion ++ "\n", "lua> ", "Output cleared.\n", "lua> "].flatMap
        (·.toUTF8.toList) := by
  intro input
  have lines : Text.linesBy Text.newline input =
      [":clear".toUTF8.toList, " :q ".toUTF8.toList, [0xFF]] := by
    decide +kernel
  have hears : ∀ w, Hears w (Text.linesBy Text.newline input) [":clear", " :q "] .asked := by
    intro w
    rw [lines]
    exact .next rfl (by decide +kernel) rfl (.asked rfl (by decide +kernel))
  have shows : ∀ w, transcript w [":clear", " :q "] =
      ["lua> ", "Output cleared.\n", "lua> "].flatMap (·.toUTF8.toList) := by
    intro w
    simp only [transcript_cons]
    rw [exchange_of_idle rfl, exchange_of_idle rfl, if_pos (by decide), if_neg (by decide)]
    simp [transcript, prompt]
  have idle : calls [":clear", " :q "] = [] := rfl
  obtain ⟨texts, ending, only, output, -, code, -⟩ := ofInput_bytes .bare validConfig_bare start_standard input
  obtain ⟨rfl, rfl⟩ := (only _ _).1 (hears _)
  refine ⟨⟨validConfig_bare, start_standard⟩, code, ?_⟩
  rw [output, begun_bare, shows, Ending.lastPrompt, idle, World.run, List.foldl_nil, closing, released_bare,
    List.append_nil, List.append_nil]
  rfl

/-- A comment that is no text ends a console before the line that asks for the end. -/
theorem ofInput_bytes_unreadable :
    let input := "-- ".toUTF8.toList ++ 0xFF :: "\n:quit\n".toUTF8.toList
    (Surroundings.bare.validConfig = .ok .standard ∧
      (Engine.new ConsoleConfig.standard.engine).start.result = .ok ()) ∧
    (ofInput .bare input).exitCode? = some 1 ∧
    (ofInput .bare input).output =
      [About.banner Lua.Library.languageVersion ++ "\n", "lua> "].flatMap (·.toUTF8.toList) := by
  intro input
  have lines : Text.linesBy Text.newline input = [[0x2D, 0x2D, 0x20, 0xFF], ":quit".toUTF8.toList] := by
    decide +kernel
  have fault : Text.Utf8.decodeOnto [] 0 [0x2D, 0x2D, 0x20, 0xFF] = .error ⟨3, some 1⟩ := by
    simp [Text.Utf8.decodeOnto, Text.Utf8.piece, Text.Utf8.lead?]
  have hears : ∀ w, Hears w (Text.linesBy Text.newline input) [] .unreadable := by
    intro w
    rw [lines]
    exact .unreadable (Text.noText_of_fault fault)
  have idle : calls [] = [] := rfl
  obtain ⟨output, -, code⟩ := ofInput_heard .bare validConfig_bare start_standard (hears _)
  refine ⟨⟨validConfig_bare, start_standard⟩, code, ?_⟩
  rw [output, begun_bare, Ending.lastPrompt, idle, World.run, List.foldl_nil, closing, released_bare]
  simp [transcript, prompt]

end VaultConsole.Run
