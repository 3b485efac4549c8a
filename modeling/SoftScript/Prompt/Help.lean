/-! The help that the prompt shows, by topic. -/
namespace SoftScript.Prompt.Help

def overviewLines : List String := [
  "Coffee Filter is a soft typed language that uses ; as a line-ender",
  "To get more information try one of the following commands:",
  "-h v: Variables",
  "-h t: Types",
  "-h l: List",
  "-h f: Functions",
  "-h b: Branch logic",
  "-h s: Standard Functions",
  "-h g: Get the full Grammar",
  "Coffee Filter prompt",
  "-r \x7bPATH\x7d: Run a file of Coffee Filter code",
  "-h: Help",
  "-e: Exit the prompt"]

def variablesLines : List String := [
  "variables are declared with 'var' \x7bIDENTIFIER\x7d",
  "variables can be assigned with '=' \x7bVALUE\x7d",
  "and accessed with \x7bIDENTIFIER\x7d"]

def typesLines : List String := [
  "Coffee Filter is soft typed and will assign types for you",
  "Supported types are: Int, Bool, Functions, String, List, Object, Null",
  "Basic functions like arithmetic and string concatenations are supported"]

def listsLines : List String := [
  "Lists are declared with [\x7bVALUE\x7d,*]",
  "Lists have some standard dot accesses: size, add(v), add_range(l), insert(i, v), remove(v)",
  "Lists can be accessed with \x7bIDENTIFIER\x7d[] syntax"]

def functionsLines : List String := [
  "Functions are declared as 'fun \x7bIDENTIFIER\x7d(\x7bPARAMS\x7d)\x7b return value; \x7d'",
  "Functions are values and can be assigned to variables as expected"]

def branchingLines : List String := [
  "Supported branch logics are if, while, for",
  "Conditions are truthy unless they are false, null or 0"]

def standardLines : List String := [
  "Standard functions include:",
  "print(value): Prints a value to the console",
  "clock(): returns the current time in milliseconds"]

def grammarLines : List String := [
  "program                        -> line* EOF",
  "line                           -> declaration | statement",
  "declaration                    -> variable_declaration | function_declaration",
  "variable_declaration           -> \"var\" IDENTIFIER ( \"=\" expression )? \";\"",
  "function_declaration           -> \"fun\" IDENTIFIER \"(\" parameters? \")\" block",
  "parameters                     -> IDENTIFIER ( \",\" IDENTIFIER )*",
  "statement                      -> expression_statement | for | if | while | block | return",
  "for                            -> \"for\" \"(\" ( variable_declaration | expression_statement | \";\" ) expression? \";\" expression? \")\" statement",
  "while                          -> \"while\" \"(\" expression \")\" statement",
  "if                             -> \"if\" \"(\" expression \")\" statement ( \"else\" statement )?",
  "block                          -> \"\x7b\" line* \"\x7d\"",
  "expression_statement           -> expression \";\"",
  "return                         -> \"return\" expression? \";\"",
  "expression                     -> assignment",
  "assignment                     -> postfix ( \"=\" | \"+=\" | \"-=\" ) assignment | logic_or",
  "logic_or                       -> logic_and ( \"or\" logic_and )*",
  "logic_and                      -> equality ( \"and\" equality )*",
  "equality                       -> comparison ( ( \"!=\" | \"==\" ) comparison )*",
  "comparison                     -> term ( ( \">\" | \">=\" | \"<\" | \"<=\" ) term )*",
  "term                           -> factor ( ( \"-\" | \"+\" ) factor )*",
  "factor                         -> unary ( ( \"/\" | \"*\" | \"%\" ) unary )*",
  "unary                          -> ( \"!\" | \"-\" ) unary | postfix",
  "postfix                        -> primary ( \"(\" arguments? \")\" | \"[\" expression \"]\" | \".\" IDENTIFIER )*",
  "arguments                      -> expression ( \",\" expression )*",
  "primary                        -> NUMBER | STRING | \"true\" | \"false\" | \"null\" | \"(\" expression \")\"",
  "                                | IDENTIFIER | \"[\" arguments? \"]\" | \"\x7b\" declaration* \"\x7d\""]

/-- The lines on a topic; without a topic those that list the topics. The words for topics are
matched after lower-casing, to which only their ASCII letters matter. -/
def topic? : Option String → Option (List String)
  | none => some overviewLines
  | some name =>
    match name.toLower with
    | "v" | "variables" => some variablesLines
    | "t" | "types" => some typesLines
    | "l" | "list" => some listsLines
    | "f" | "functions" => some functionsLines
    | "b" | "branch" => some branchingLines
    | "s" | "std" | "standard" => some standardLines
    | "g" | "grammar" => some grammarLines
    | _ => none

end SoftScript.Prompt.Help
