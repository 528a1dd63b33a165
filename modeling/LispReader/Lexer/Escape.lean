namespace LispReader

def escapeCodes : List (Char × Char) :=
  [('a', '\x07'), ('b', '\x08'), ('t', '\t'), ('n', '\n'), ('v', '\x0b'), ('f', '\x0c'),
    ('r', '\r'), ('e', '\x1b'), ('\\', '\\'), ('\'', '\''), ('"', '"')]

def escaped? (code : Char) : Option Char :=
  escapeCodes.lookup code

end LispReader
