import ElementBundle.Component.Generate
import ElementBundle.Markup.Template

/-!
# The head of a bundle

Every bundle starts with a fixed script: the function that turns a template into an element, and the
class that all components extend. It checks the required attributes once, when an element enters the
document.
-/

namespace ElementBundle.Project

/-- The lines of the head, for given names of the function and of the class. -/
def preludeLines (helper base : String) : List String :=
  ["function " ++ helper ++ "(html) \x7b",
    "\tconst div = document.createElement('div');",
    "\tdiv.innerHTML = html;",
    "\tconst elem = div.firstElementChild;",
    "\telem.remove();",
    "\treturn elem;",
    "\x7d",
    "",
    "class " ++ base ++ " extends HTMLElement \x7b",
    "\tconstructor(attr) \x7b",
    "\t\tsuper();",
    "",
    "\t\tthis.creation_complete = false;",
    "",
    "\t\tif (attr) \x7b",
    "\t\t\tfor (let key in attr) this.setAttribute(key.replaceAll('_', '-'), attr[key]);",
    "\t\t\x7d",
    "\t\x7d",
    "",
    "\tasync connectedCallback() \x7b",
    "\t\tif (!this.creation_complete) \x7b",
    "\t\t\tthis.creation_complete = true;",
    "",
    "\t\t\tfor (const req_attr of this.requiredAttributes) \x7b",
    "\t\t\t\tif (!this.hasAttribute(req_attr)) \x7b",
    "\t\t\t\t\tthrow new Error(`Required attribute \"$\x7breq_attr\x7d\" not found`);",
    "\t\t\t\t\x7d",
    "\t\t\t\x7d",
    "",
    "\t\t\tif (typeof this.created === 'function') this.created();",
    "\t\t\x7d",
    "\t\x7d",
    "\x7d",
    ""]

def prelude : List Char :=
  ("\n".intercalate
    (preludeLines (String.ofList (Markup.Renderer.helper {})) (String.ofList Component.baseClass))).toList

end ElementBundle.Project
