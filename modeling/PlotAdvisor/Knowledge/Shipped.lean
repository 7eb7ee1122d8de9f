/-! The texts that come with the library: tables of short forms, return types, further documentation and
references, the summary of the plotting functions, and the words that carry no meaning. -/
set_option autoImplicit false

namespace PlotAdvisor.Knowledge

def shortForms : String := String.join [
  "matplotlib,mpl\n",
  "matplotlib.pyplot,plt\n",
  "matplotlib.axes.Axes,ax\n",
  "matplotlib.pyplot.axes,plt.gca\n",
  "matplotlib.pyplot.figure.add_axes,plt.gca\n",
  "matplotlib.pyplot.figure.gca,plt.gca\n",
  "matplotlib.pyplot.figure.add_subplot,plt.gca\n",
  "matplotlib.pyplot.gcf.add_subplot,plt.gca\n",
  "matplotlib.pyplot.subplot,plt.gca\n",
  "matplotlib.pyplot.subplot2grid,plt.gca\n"]

def returnTypes : String := String.join [
  "plt.gca,mpl.axes.Axes\n",
  "plt.legend,mpl.legend.Legend\n"]

/-- Elements with documentation written by hand. -/
def furtherDocs : String := String.join [
  "elem_id,doc\r\n",
  "plt.barbs@barb_increments@half,half barbs\r\n",
  "plt.barbs@barb_increments@full,full barbs\r\n",
  "plt.barbs@barb_increments@flag,flags\r\n",
  "plt.barbs@sizes@spacing,\"space between features (flags, full/half barbs)\"\r\n",
  "plt.barbs@sizes@height,height (distance from shaft to top) of a flag or full barb\r\n",
  "plt.barbs@sizes@width,\"width of a flag, twice the width of a full barb\"\r\n",
  "plt.barbs@sizes@emptybarb,radius of the circle used for low magnitudes\r\n",
  "plt.bar@hatch,set hatching pattern\r\n",
  "plt.title@bbox@pad,padding of title bounding box"]

/-- Elements whose arguments are documented elsewhere. -/
def furtherReferences : String := String.join [
  "elem_id,ref,type\n",
  "plt.title,mpl.text.Text,property_as_keyword\n",
  "plt.stack_plot,plt.fill_between,keyword_as_keyword\n",
  "mpl.text.Text.set_bbox,mpl.patches.FancyBboxPatch,property_as_keyword\n",
  "mpl.text.Text.set_bbox,mpl.patches.Patch,property_as_keyword\n",
  "plt.annotate@arrowprops,mpl.patches.FancyArrowPatch,property_as_keyword\n",
  "plt.annotate@arrowprops,mpl.patches.Patch,property_as_keyword\n",
  "plt.annotate@arrowprops,mpl.lines.Line2D,property_as_keyword\n",
  "plt.annotate,mpl.text.Text,property_as_keyword\n",
  "plt.bar@error_kw,plt.errorbar,keyword_as_keyword\n",
  "plt.boxplot@boxprops,mpl.lines.Line2D,property_as_keyword\n",
  "plt.boxplot@capprops,mpl.lines.Line2D,property_as_keyword\n",
  "plt.boxplot@flierprops,mpl.lines.Line2D,property_as_keyword\n",
  "plt.boxplot@medianprops,mpl.lines.Line2D,property_as_keyword\n",
  "plt.boxplot@whiskerprops,mpl.lines.Line2D,property_as_keyword\n",
  "plt.figtext,mpl.text.Text,property_as_keyword\n",
  "plt.gca.text2D,mpl.text.Text,property_as_keyword\n",
  "plt.legend.set_title@prop,mpl.font_manager.FontProperties,property_as_keyword\n",
  "plt.legend@prop,mpl.font_manager.FontProperties,property_as_keyword\n",
  "plt.pie@textprops,mpl.text.Text,property_as_keyword\n",
  "plt.pie@wedgeprops,mpl.patches.Patch,property_as_keyword\n",
  "plt.quiverkey@fontproperties,mpl.font_manager.FontProperties,property_as_keyword\n",
  "plt.text,mpl.text.Text,property_as_keyword\n",
  "plt.xlabel@fontdict,mpl.text.Text,property_as_keyword\n",
  "plt.ylabel@fontdict,mpl.text.Text,property_as_keyword\n",
  "plt.title@fontdict,mpl.text.Text,property_as_keyword\n"]

def plottingRows : List String := [
  "Function,Description\n",
  "acorr,Plot the autocorrelation of x.\n",
  "angle_spectrum,Plot the angle spectrum.\n",
  "annotate,Create an annotation: a piece of text referring to a data point.\n",
  "arrow,Add an arrow to the axes.\n",
  "autoscale,Autoscale the axis view to the data (toggle).\n",
  "axes,Add an axes to the figure.\n",
  "axhline,Add a horizontal line across the axis.\n",
  "axhspan,Add a horizontal span (rectangle) across the axis.\n",
  "axis,Convenience method to get or set axis properties.\n",
  "axvline,Add a vertical line across the axes.\n",
  "axvspan,Add a vertical span (rectangle) across the axes.\n",
  "bar,Make a bar plot.\n",
  "barbs,Plot a 2-D field of barbs.\n",
  "barh,Make a horizontal bar plot.\n",
  "box,Turn the axes box on or off.\n",
  "boxplot,Make a box and whisker plot.\n",
  "broken_barh,Plot horizontal bars.\n",
  "cla,Clear the current axes.\n",
  "clabel,Label a contour plot.\n",
  "clf,Clear the current figure.\n",
  "clim,Set the color limits of the current image.\n",
  "close,Close a figure window.\n",
  "cohere,Plot the coherence between x and y.\n",
  "colorbar,Add a colorbar to a plot.\n",
  "contour,Plot contours.\n",
  "contourf,Plot contours.\n",
  "csd,Plot the cross-spectral density.\n",
  "delaxes,Remove an axes from the current figure.\n",
  "draw,Redraw the current figure.\n",
  "errorbar,Plot an errorbar graph.\n",
  "eventplot,Plot identical parallel lines at specific positions.\n",
  "figimage,Adds a non-resampled image to the figure.\n",
  "figlegend,Place a legend in the figure.\n",
  "fignum_exists,\n",
  "figtext,Add text to figure.\n",
  "figure,Creates a new figure.\n",
  "fill,Plot filled polygons.\n",
  "fill_between,Make filled polygons between two curves.\n",
  "fill_betweenx,Make filled polygons between two horizontal curves.\n",
  "findobj,Find artist objects.\n",
  "gca,\"Get the current Axes instance on the current figure matching the given keyword args",
  ", or create one.\"\n",
  "gcf,Get a reference to the current figure.\n",
  "gci,Get the current colorable artist.\n",
  "get_figlabels,Return a list of existing figure labels.\n",
  "get_fignums,Return a list of existing figure numbers.\n",
  "grid,Turn the axes grids on or off.\n",
  "hexbin,Make a hexagonal binning plot.\n",
  "hist,Plot a histogram.\n",
  "hist2d,Make a 2D histogram plot.\n",
  "hlines,Plot horizontal lines at each y from xmin to xmax.\n",
  "hold,Set the hold state.\n",
  "imread,Read an image from a file into an array.\n",
  "imsave,Save an array as in image file.\n",
  "imshow,Display an image on the axes.\n",
  "install_repl_displayhook,Install a repl display hook so that any stale figure are automa",
  "tically redrawn when control is returned to the repl.\n",
  "ioff,Turn interactive mode off.\n",
  "ion,Turn interactive mode on.\n",
  "ishold,Return the hold status of the current axes.\n",
  "isinteractive,Return status of interactive mode.\n",
  "legend,Places a legend on the axes.\n",
  "locator_params,Control behavior of tick locators.\n",
  "loglog,Make a plot with log scaling on both the x and y axis.\n",
  "magnitude_spectrum,Plot the magnitude spectrum.\n",
  "margins,Set or retrieve autoscaling margins.\n",
  "matshow,Display an array as a matrix in a new figure window.\n",
  "minorticks_off,Remove minor ticks from the current plot.\n",
  "minorticks_on,Display minor ticks on the current plot.\n",
  "over,Call a function with hold(True).\n",
  "pause,Pause for interval seconds.\n",
  "pcolor,Create a pseudocolor plot of a 2-D array.\n",
  "pcolormesh,Plot a quadrilateral mesh.\n",
  "phase_spectrum,Plot the phase spectrum.\n",
  "pie,Plot a pie chart.\n",
  "plot,Plot lines and/or markers to the Axes.\n",
  "plot_date,Plot with data with dates.\n",
  "plotfile,Plot the data in in a file.\n",
  "polar,Make a polar plot.\n",
  "psd,Plot the power spectral density.\n",
  "quiver,Plot a 2-D field of arrows.\n",
  "quiverkey,Add a key to a quiver plot.\n",
  "rc,Set the current rc params.\n",
  "rc_context,Return a context manager for managing rc settings.\n",
  "rcdefaults,Restore the default rc params.\n",
  "rgrids,Get or set the radial gridlines on a polar plot.\n",
  "savefig,Save the current figure.\n",
  "sca,Set the current Axes instance to ax.\n",
  "scatter,\"Make a scatter plot of x vs y, where x and y are sequence like objects of the s",
  "ame lengths.\"\n",
  "sci,Set the current image.\n",
  "semilogx,Make a plot with log scaling on the x axis.\n",
  "semilogy,Make a plot with log scaling on the y axis.\n",
  "set_cmap,Set the default colormap.\n",
  "setp,Set a property on an artist object.\n",
  "show,Display a figure.\n",
  "specgram,Plot a spectrogram.\n",
  "spy,Plot the sparsity pattern on a 2-D array.\n",
  "stackplot,Draws a stacked area plot.\n",
  "stem,Create a stem plot.\n",
  "step,Make a step plot.\n",
  "streamplot,Draws streamlines of a vector flow.\n",
  "subplot,Return a subplot axes positioned by the given grid definition.\n",
  "subplot2grid,Create a subplot in a grid.\n",
  "subplot_tool,Launch a subplot tool window for a figure.\n",
  "subplots,Create a figure with a set of subplots already made.\n",
  "subplots_adjust,Tune the subplot layout.\n",
  "suptitle,Add a centered title to the figure.\n",
  "switch_backend,Switch the default backend.\n",
  "table,Add a table to the current axes.\n",
  "text,Add text to the axes.\n",
  "thetagrids,Get or set the theta locations of the gridlines in a polar plot.\n",
  "tick_params,Change the appearance of ticks and tick labels.\n",
  "ticklabel_format,Change the ScalarFormatter used by default for linear axes.\n",
  "tight_layout,Automatically adjust subplot parameters to give specified padding.\n",
  "title,Set a title of the current axes.\n",
  "tricontour,Draw contours on an unstructured triangular grid.\n",
  "tricontourf,Draw contours on an unstructured triangular grid.\n",
  "tripcolor,Create a pseudocolor plot of an unstructured triangular grid.\n",
  "triplot,Draw a unstructured triangular grid as lines and/or markers.\n",
  "twinx,Make a second axes that shares the x-axis.\n",
  "twiny,Make a second axes that shares the y-axis.\n",
  "uninstall_repl_displayhook,Uninstalls the matplotlib display hook.\n",
  "violinplot,Make a violin plot.\n",
  "vlines,Plot vertical lines.\n",
  "xcorr,Plot the cross correlation between x and y.\n",
  "xkcd,Turns on xkcd sketch-style drawing mode.\n",
  "xlabel,Set the x axis label of the current axis.\n",
  "xlim,Get or set the x limits of the current axes.\n",
  "xscale,Set the scaling of the x-axis.\n",
  "xticks,Get or set the x-limits of the current tick locations and labels.\n",
  "ylabel,Set the y axis label of the current axis.\n",
  "ylim,Get or set the y-limits of the current axes.\n",
  "yscale,Set the scaling of the y-axis.\n",
  "yticks,Get or set the y-limits of the current tick locations and labels."]

def plottingSummary : String := String.join plottingRows

def emptyWords : String := String.join [
  "'d, 'll, 'm, 're, 's, 't, n't, 've, a, aboard, about, above, across, add, after, again, ",
  "against, all, almost, alone, along, alongside, already, also, although, always, am, amid",
  ", amidst, among, amongst, an, and, another, anti, any, anybody, anyone, anything, anywhe",
  "re, are, aren't, around, as, ask, asked, asking, asks, at, aught, away, be, became, beca",
  "use, become, becomes, been, before, began, being, beings, better, both, but, by, came, c",
  "an, can't, cannot, case, cases, certain, certainly, change, circa, come, concerning, con",
  "sidering, could, couldn't, daren't, despite, did, didn't, differ, different, differently",
  ", do, does, doesn't, doing, don't, done, downed, downing, downs, during, each, early, ei",
  "ther, enough, ever, every, everybody, everyone, everything, everywhere, except, exceptin",
  "g, excluding, fact, facts, felt, few, fewer, find, finds, first, five, following, for, f",
  "our, from, further, furthered, furthering, furthers, gave, general, generally, get, gets",
  ", give, given, gives, go, goes, going, good, goods, got, group, grouped, grouping, group",
  "s, had, hadn't, has, hasn't, have, haven't, having, he, he'd, he'll, he's, her, here, he",
  "re's, hers, herself, high, high, high, higher, highest, him, himself, his, hisself, how,",
  " how's, however, i, i'd, i'll, i'm, i've, idem, if, ilk, important, in, including, inter",
  "est, interested, interesting, interests, into, is, isn't, it, it's, its, itself, just, k",
  "eep, keeps, knew, know, known, knows, last, later, latest, least, less, let, let's, lets",
  ", like, likely, made, make, making, man, many, may, me, member, members, men, might, mig",
  "htn't, mine, minus, more, most, mostly, mr, mrs, much, must, mustn't, my, myself, naught",
  ", necessary, need, needed, needing, needn't, needs, neither, never, new, new, newer, new",
  "est, next, no, nobody, non, none, noone, nor, not, nothing, notwithstanding, now, nowher",
  "e, of, off, often, old, older, oldest, on, once, one, oneself, only, onto, or, other, ot",
  "hers, otherwise, ought, oughtn't, our, ours, ourself, ourselves, out, own, part, parted,",
  " parting, parts, past, pending, per, perhaps, plus, possible, present, presented, presen",
  "ting, presents, problem, problems, quite, rather, really, regarding, said, same, save, s",
  "aw, say, says, second, seconds, see, seem, seemed, seeming, seems, seen, sees, self, sev",
  "eral, shall, shan't, she, she'd, she'll, she's, should, shouldn't, since, so, some, some",
  "body, someone, something, somewhat, somewhere,  still, still, such, suchlike, sundry, su",
  "re, take, taken, than, that, that's, the, thee, their, theirs, them, themselves, then, t",
  "here, there's, therefore, these, they, they'd, they'll, they're, they've, thine, thing, ",
  "things, think, thinks, this, those, thou, though, thought, thoughts, three, through, thr",
  "oughout, thus, thyself, till, to, today, together, too, took, tother, toward, towards, t",
  "urn, turned, turning, turns, twain, two, under, underneath, unless, unlike, until, up, u",
  "pon, us, use, used, uses, various, versus, very, via, vis-a-vis, want, wanted, wanting, ",
  "wants, was, wasn't, way, ways, we, we'd, we'll, we're, we've, well, wells, went, were, w",
  "eren't, what, what's, whatall, whatever, whatsoever, when, when's, where, where's, where",
  "as, wherewith, wherewithal, whether, which, whichever, whichsoever, while, who, who's, w",
  "hoever, whole, whom, whomever, whomso, whomsoever, whose, whosoever, why, why's, will, w",
  "ith, within, without, won't, work, worked, working, works, worth, would, wouldn't, ye, y",
  "ear, years, yet, yon, yonder, you, you'd, you'll, you're, you've, you-all, young, younge",
  "r, youngest, your, yours, yourself, yourselves\n"]

end PlotAdvisor.Knowledge
