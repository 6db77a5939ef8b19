/-! # Shell completion -/

namespace BundleCheck

inductive Shell
  | bash
  | elvish
  | fish
  | powershell
  | zsh
  deriving DecidableEq

namespace Shell

/-- The shell of a name, in any case. -/
def ofName? (name : String) : Option Shell :=
  match String.ofList (name.toList.map Char.toLower) with
  | "bash" => some .bash
  | "elvish" => some .elvish
  | "fish" => some .fish
  | "powershell" => some .powershell
  | "pwsh" => some .powershell
  | "zsh" => some .zsh
  | _ => none

/-- A script that completes the first word after a program's name. -/
def script (shell : Shell) (program : String) (words : List String) : String :=
  let list := " ".intercalate words
  match shell with
  | .bash => s!"complete -W '{list}' {program}\n"
  | .elvish => s!"set edit:completion:arg-completer[{program}] = \x7b|@_| put {list} \x7d\n"
  | .fish => s!"complete -c {program} -f -n __fish_use_subcommand -a '{list}'\n"
  | .powershell =>
      s!"Register-ArgumentCompleter -Native -CommandName {program} -ScriptBlock " ++
        s!"\x7b '{list}' -split ' ' \x7d\n"
  | .zsh => s!"#compdef {program}\ncompadd {list}\n"

end Shell

end BundleCheck
