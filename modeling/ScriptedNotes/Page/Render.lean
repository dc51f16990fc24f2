import ScriptedNotes.Page.Inline
import ScriptedNotes.Page.ScriptBlock

/-!
A note as a page. Scripts and code fences go into a vault first; then the blocks are laid out and
the marks inside lines replaced; last the vault is emptied into its places. The preview leaves the
scripts out.
-/

namespace ScriptedNotes.Page

open Text Script

/-- A script in the page: its source, and either what it takes to run it or what is wrong. -/
def scriptHtml (b : ScriptBlock) : List Char :=
  let id := b.id.toList
  let source := escape b.source
  match b.compiled with
  | .ok _ =>
    "<div class=\"automation-block\" id=\"".toList ++ id ++ "\">\n".toList ++
      "<div class=\"automation-header\">".toList ++
      "<span class=\"automation-icon\">auto_fix_high</span>".toList ++
      "<span>Automation Script</span>".toList ++
      "<button class=\"automation-run\" data-automation=\"".toList ++ id ++
      "\">Run</button></div>\n".toList ++
      "<pre><code class=\"language-automation\">".toList ++ source ++
      "</code></pre>\n".toList ++
      "<div class=\"automation-output\" hidden>".toList ++
      "<div class=\"automation-status\"></div>".toList ++
      "<div class=\"automation-terminal\"></div></div>\n</div>".toList
  | .error e =>
    "<div class=\"automation-block error\" id=\"".toList ++ id ++ "\">\n".toList ++
      "<div class=\"automation-header\">".toList ++
      "<span class=\"automation-icon\">error</span>".toList ++
      "<span>Invalid Automation Script</span></div>\n".toList ++
      "<pre><code class=\"language-automation\">".toList ++ source ++
      "</code></pre>\n".toList ++
      "<div class=\"automation-error\">".toList ++ escape e.message.toList ++
      "</div>\n</div>".toList

/-- A page and the scripts of its note. -/
structure Rendered where
  html : List Char
  scripts : List ScriptBlock

/-- The page of a note. -/
def renderNote (text : List Char) : Rendered :=
  let stash := fun (v : Vault) b => v.stash (scriptHtml b)
  let (text, scripts, vault) := replaceScripts stash ⟨[]⟩ text
  let (text, vault) := vault.extract text
  ⟨vault.restore (renderInline (renderBlocks text)), scripts⟩

/-- The script that the empty editor shows. -/
def exampleScript : String :=
  "fn setup() \x7b\n    print \"Hello, automation!\"\n\x7d"

/-- What the preview of an empty note shows. -/
def emptyPreview : String :=
  "<div class=\"mne-preview-empty\">\n" ++
    "<em>Start typing to see the preview...</em>\n" ++
    "<div class=\"preview-hint\">\n" ++
    "<p>Create an automation block using:</p>\n" ++
    "<pre>:::automation\n" ++ exampleScript ++ "\n:::</pre>\n" ++
    "<p>or with code fences:</p>\n" ++
    "<pre>```automation\n" ++ exampleScript ++ "\n```</pre>\n" ++
    "</div>\n</div>"

/-- The page of a note without its scripts, or a hint when there is nothing in it. -/
def preview (text : List Char) : List Char :=
  if allBlank text then emptyPreview.toList else (renderNote (stripScripts text)).html

/-- The three dialects in a few lines. -/
def quickReference : String :=
  "// Simple commands:\ncreate file.txt\ncreate src/\ndelete file.txt\nprint \"Message\"\n\n" ++
    "// Task usage:\ntask \"scaffold\" \x7b\n    name: \"myproject\"\n" ++
    "    template: \"basic\"\n\x7d\n\n" ++
    "// Advanced usage:\nlet greet = fn(name) => \"Hello \x7bname\x7d\"\n" ++
    "for i in 1..3 \x7b\n    print greet(i)\n\x7d\n"

/-- The quick reference in a page. -/
def help : List Char :=
  "<div class=\"help-section\">\n<h4>Quick Reference</h4>\n<pre>".toList ++
    escape quickReference.toList ++ "</pre>\n</div>".toList

end ScriptedNotes.Page
