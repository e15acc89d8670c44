import Directory.CommandLine.Arguments

/-!
# Help texts

What the program says about itself. A text names the purpose of its topic, how it is called, and in
tables of two columns the commands, arguments and options that belong to it.
-/

namespace Directory

/-! ### Options -/

/-- The option as it is called, behind the place where a short form would stand. -/
def OptionName.form (o : OptionName) : String :=
  let placeholder := o.spelling.map fun c => if c = '-' then '_' else c.toUpper
  "    --" ++ o.spelling ++ if o.takesValue then " <" ++ placeholder ++ ">" else ""

/-- What the option is for. -/
def OptionName.purpose : OptionName → String
  | fixture =>
    "Path to the partition fixture (schema, partition, entries) [default: "
      ++ CommandLine.defaultFixture ++ "]"
  | filter => "Filter as JSON; read a request from stdin when absent"
  | sizeLimit => "Maximum number of entries to return (0 means no limit)"
  | json => "Print the plan as JSON instead of text"

/-! ### Topics -/

namespace HelpTopic

/-- What the topic is for. -/
def purpose : HelpTopic → String
  | program => "Index-driven LDAP filter evaluation for a directory server partition"
  | search => "Run a search and print matching entries"
  | explain => "Describe how a search would run without running it"
  | help => "Print this message or the help of the given subcommand(s)"

/-- How the topic is called. -/
def usage : HelpTopic → String
  | program => "dirsearch <COMMAND>"
  | search => "dirsearch search [OPTIONS]"
  | explain => "dirsearch explain [OPTIONS]"
  | help => "dirsearch help [COMMAND]..."

/-- The rows for options, the request for help among them. -/
def optionRows (options : List OptionName) : List (String × String) :=
  options.map (fun o => (o.form, o.purpose)) ++ [("-h, --help", "Print help")]

/-- The tables of the topic, each with its title. -/
def tables : HelpTopic → List (String × List (String × String))
  | program =>
    [("Commands",
      [("search", search.purpose), ("explain", explain.purpose), ("help", help.purpose)]),
     ("Options", optionRows [] ++ [("-V, --version", "Print version")])]
  | search => [("Options", optionRows CommandLine.searchOptions)]
  | explain => [("Options", optionRows CommandLine.explainOptions)]
  | help => [("Arguments", [("[COMMAND]...", "Print help for the subcommand(s)")])]

/-- The rows below each other, the first column as wide as its widest entry. -/
def layRows (rows : List (String × String)) : String :=
  let width := (rows.map fun row => row.1.length).foldl max 0
  String.join <| rows.map fun (name, text) =>
    "  " ++ name ++ String.ofList (List.replicate (width - name.length + 2) ' ') ++ text ++ "\n"

/-- The whole text. -/
def text (topic : HelpTopic) : String :=
  topic.purpose ++ "\n\nUsage: " ++ topic.usage ++ "\n"
    ++ String.join (topic.tables.map fun (title, rows) => "\n" ++ title ++ ":\n" ++ layRows rows)

end HelpTopic

end Directory
